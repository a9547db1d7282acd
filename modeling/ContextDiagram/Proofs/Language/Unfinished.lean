import ContextDiagram.Proofs.Language.ParseTree

namespace ContextDiagram.Language

open Source

/-- Whether tokens end in names behind a bracket, which is still open. -/
def EndsInTags (opened : Span) (ls : List Lexeme) : Prop :=
  ∃ front, ∃ s : NameSeries, ls = front ++ ⟨.openBracket, opened⟩ :: s.yield

def EndsInSign (ls : List Lexeme) : Prop :=
  ∃ l, ls.getLast? = some l ∧ ∀ name, l.token ≠ .identifier name

def Mistake.Follows (part : List Lexeme) : Mistake → Prop
  | unexpected _ _ => EndsInSign part
  | unclosedTagList opened rest =>
    EndsInTags opened part ∧ NextIsNot .comma rest ∧ NextIsNot .closeBracket rest
  | unclosedBlock _ => False

/-- Whether tokens fail to be a phrase inside of it: those before the mistake are the first part of
a phrase. -/
def FailsInside (IsPhrase : List Lexeme → Prop) (ls : List Lexeme) (mistake : Mistake) : Prop :=
  ∃ part, ls = part ++ mistake.rest ∧ mistake.Follows part ∧ ∃ more, IsPhrase (part ++ more)

variable {ls rest part : List Lexeme} {mistake : Mistake}

theorem EndsInTags.prepend {opened : Span} (h : EndsInTags opened part) (front : List Lexeme) :
    EndsInTags opened (front ++ part) := by
  obtain ⟨front', s, rfl⟩ := h
  exact ⟨front ++ front', s, (List.append_assoc ..).symm⟩

theorem EndsInSign.prepend (h : EndsInSign part) (front : List Lexeme) :
    EndsInSign (front ++ part) := by
  obtain ⟨l, hlast, hl⟩ := h
  refine ⟨l, ?_, hl⟩
  rw [List.getLast?_append, hlast]
  rfl

theorem endsInSign_concat (front : List Lexeme) {l : Lexeme}
    (h : ∀ name, l.token ≠ .identifier name) : EndsInSign (front ++ [l]) :=
  ⟨l, List.getLast?_concat, h⟩

theorem FailsInside.prepend {P Q : List Lexeme → Prop} (h : FailsInside P ls mistake)
    (front : List Lexeme) (hPQ : ∀ text, P text → ∃ more, Q (front ++ (text ++ more))) :
    FailsInside Q (front ++ ls) mistake := by
  obtain ⟨part, rfl, hmistake, more, hphrase⟩ := h
  obtain ⟨more', hphrase'⟩ := hPQ _ hphrase
  refine ⟨front ++ part, (List.append_assoc ..).symm, ?_, more ++ more', ?_⟩
  · cases mistake with
    | unexpected expected rest => exact hmistake.prepend front
    | unclosedTagList opened rest => exact ⟨hmistake.1.prepend front, hmistake.2⟩
    | unclosedBlock opened => exact hmistake
  · rwa [List.append_assoc, ← List.append_assoc part]

theorem nextIsNot_comma_of_names {expected : Expectation} {found : List (Located String)}
    (h : names expected ls = .ok (found, rest)) : NextIsNot .comma rest := by
  fun_induction names expected ls generalizing found with
  | case1 name span comma ls ih =>
    obtain ⟨⟨others, rest'⟩, hn, he⟩ := Except.bind_eq_ok_iff.1 h
    cases he
    exact ih hn
  | case2 name span ls hls =>
    cases h
    cases rest with
    | nil =>
      intro l hl
      cases hl
    | cons l rest =>
      refine nextIsNot_cons.2 ?_
      intro hcomma
      obtain ⟨t, comma⟩ := l
      obtain rfl : t = .comma := hcomma
      exact hls comma rest rfl
  | case3 => cases h

theorem exists_series_of_names_error {expected : Expectation}
    (h : names expected ls = .error mistake) :
    ∃ part rest, ls = part ++ rest ∧ mistake = .unexpected expected rest ∧
      (∀ l ∈ part.getLast?, l.token = .comma) ∧
      ∀ name, ∃ s : NameSeries, part ++ [nameLexeme name] = s.yield := by
  fun_induction names expected ls with
  | case1 name span comma ls ih =>
    rcases Except.bind_eq_error_iff.1 h with h | ⟨p, -, h⟩
    · obtain ⟨part, rest, rfl, rfl, hlast, hseries⟩ := ih h
      refine ⟨⟨.identifier name, span⟩ :: ⟨.comma, comma⟩ :: part, rest, rfl, rfl, ?_, ?_⟩
      · cases part with
        | nil =>
          intro l hl
          cases hl
          rfl
        | cons l part =>
          rw [List.getLast?_cons_cons, List.getLast?_cons_cons]
          exact hlast
      · intro last
        obtain ⟨s, hs⟩ := hseries last
        refine ⟨⟨⟨name, span⟩, (comma, s.first) :: s.others⟩, ?_⟩
        rw [NameSeries.yield_cons, ← hs]
        rfl
    · cases h
  | case2 => cases h
  | case3 ls =>
    cases h
    exact ⟨[], ls, rfl, rfl, (fun l hl => by cases hl), fun name => ⟨⟨name, []⟩, rfl⟩⟩

/-- The first token of a list that may go on with names ends in a sign, as does the list that wants
a name. -/
theorem endsInSign_cons_of_comma {l : Lexeme} (hl : ∀ name, l.token ≠ .identifier name)
    (h : ∀ l ∈ part.getLast?, l.token = .comma) : EndsInSign (l :: part) := by
  rw [EndsInSign, List.getLast?_cons]
  cases hlast : part.getLast? with
  | none => exact ⟨l, rfl, hl⟩
  | some last =>
    refine ⟨last, rfl, ?_⟩
    rw [h last hlast]
    nofun

def anyName : Located String :=
  ⟨"name", .emptyAt 0⟩

def anyArrow : Lexeme :=
  ⟨.arrow .toTarget, .emptyAt 0⟩

theorem failsInside_tagList (h : tagList ls = .error mistake) :
    FailsInside (fun text => ∃ g : TagGroup, text = g.yield) ls mistake := by
  unfold tagList at h
  split at h
  · next opened ls =>
    rcases Except.bind_eq_error_iff.1 h with hn | ⟨⟨found, rest⟩, hn, hf⟩
    · obtain ⟨part, rest, rfl, rfl, hlast, hseries⟩ := exists_series_of_names_error hn
      obtain ⟨s, hs⟩ := hseries anyName
      refine ⟨⟨.openBracket, opened⟩ :: part, rfl, endsInSign_cons_of_comma nofun hlast,
        [nameLexeme anyName, ⟨.closeBracket, opened⟩], ⟨opened, s, opened⟩, ?_⟩
      rw [TagGroup.yield, ← hs, List.append_assoc]
      rfl
    · obtain ⟨s, rfl, -⟩ := exists_series_of_names hn
      split at hf
      · cases hf
      · next hclosed hp =>
        cases hp
        cases hf
        refine ⟨⟨.openBracket, opened⟩ :: s.yield, rfl,
          ⟨⟨[], s, rfl⟩, nextIsNot_comma_of_names hn, ?_⟩,
          [⟨.closeBracket, opened⟩], ⟨opened, s, opened⟩, rfl⟩
        intro l hl hbracket
        obtain ⟨rest, rfl⟩ := List.head?_eq_some_iff.1 hl
        obtain ⟨t, closed⟩ := l
        obtain rfl : t = .closeBracket := hbracket
        exact hclosed _ _ rfl
  · cases h

theorem EndsInSign.append_yield? {front : List Lexeme} (h : EndsInSign front)
    (g : Option TagGroup) : EndsInSign (front ++ TagGroup.yield? g) := by
  cases g with
  | none =>
    change EndsInSign (front ++ [])
    rwa [List.append_nil]
  | some g =>
    have hclosed : EndsInSign g.yield :=
      endsInSign_concat (⟨.openBracket, g.opened⟩ :: g.tags.yield) (l := ⟨.closeBracket, g.closed⟩)
        nofun
    exact hclosed.prepend front

theorem failsInside_relationship? (h : relationship? ls = .error mistake) :
    FailsInside (fun text => ∃ r : RelationshipTree, text = r.yield) ls mistake := by
  rcases Except.bind_eq_error_iff.1 h with h₁ | ⟨⟨leading, rest₁⟩, h₁, hr₁⟩
  · refine (failsInside_tagList h₁).prepend [] ?_
    rintro text ⟨g, rfl⟩
    exact ⟨[nameLexeme anyName, anyArrow, nameLexeme anyName],
      ⟨some g, anyName, none, ⟨.toTarget, .emptyAt 0⟩, none, anyName⟩, rfl⟩
  obtain ⟨g₁, rfl, -⟩ := exists_group_of_tagList h₁
  split at hr₁
  · next source sourceSpan ls hp =>
    cases hp
    rcases Except.bind_eq_error_iff.1 hr₁ with h₂ | ⟨⟨trailing, rest₂⟩, h₂, hr₂⟩
    · rw [List.append_cons]
      refine (failsInside_tagList h₂).prepend _ ?_
      rintro text ⟨g, rfl⟩
      refine ⟨[anyArrow, nameLexeme anyName],
        ⟨g₁, ⟨source, sourceSpan⟩, some g, ⟨.toTarget, .emptyAt 0⟩, none, anyName⟩, ?_⟩
      rw [RelationshipTree.yield, List.append_assoc]
      rfl
    obtain ⟨g₂, rfl, -⟩ := exists_group_of_tagList h₂
    split at hr₂
    · next direction arrowSpan ls hp =>
      cases hp
      have hfront : TagGroup.yield? g₁ ++ ⟨.identifier source, sourceSpan⟩ ::
          (TagGroup.yield? g₂ ++ ⟨.arrow direction, arrowSpan⟩ :: ls) =
            (TagGroup.yield? g₁ ++ ⟨.identifier source, sourceSpan⟩ ::
              (TagGroup.yield? g₂ ++ [⟨.arrow direction, arrowSpan⟩])) ++ ls := by
        simp only [List.append_assoc, List.cons_append, List.nil_append]
      rw [hfront]
      rcases Except.bind_eq_error_iff.1 hr₂ with h₃ | ⟨⟨tags, rest₃⟩, h₃, hr₃⟩
      · refine (failsInside_tagList h₃).prepend _ ?_
        rintro text ⟨g, rfl⟩
        refine ⟨[nameLexeme anyName],
          ⟨g₁, ⟨source, sourceSpan⟩, g₂, ⟨direction, arrowSpan⟩, some g, anyName⟩, ?_⟩
        simp only [RelationshipTree.yield, List.append_assoc, List.cons_append, List.nil_append]
        rfl
      obtain ⟨g₃, rfl, -⟩ := exists_group_of_tagList h₃
      split at hr₃
      · cases hr₃
      · next hp =>
        cases hp
        cases hr₃
        have harrow : EndsInSign (⟨.identifier source, sourceSpan⟩ ::
            (TagGroup.yield? g₂ ++ [⟨.arrow direction, arrowSpan⟩])) :=
          endsInSign_concat (⟨.identifier source, sourceSpan⟩ :: TagGroup.yield? g₂)
            (l := ⟨.arrow direction, arrowSpan⟩) fun _ h => by cases h
        refine ⟨_, (List.append_assoc ..).symm, (harrow.prepend _).append_yield? g₃,
          [nameLexeme anyName],
          ⟨g₁, ⟨source, sourceSpan⟩, g₂, ⟨direction, arrowSpan⟩, g₃, anyName⟩, ?_⟩
        simp only [RelationshipTree.yield, List.append_assoc, List.cons_append, List.nil_append]
        rfl
    · cases hr₂
  · cases hr₁

theorem failsInside_statement? (h : statement? ls = .error mistake) :
    FailsInside (fun text => ∃ s : StatementTree, text = s.yield) ls mistake := by
  unfold statement? at h
  split at h
  · next keyword ls =>
    rcases Except.bind_eq_error_iff.1 h with hn | ⟨p, -, hf⟩
    · obtain ⟨part, rest, rfl, rfl, hlast, hseries⟩ := exists_series_of_names_error hn
      obtain ⟨s, hs⟩ := hseries anyName
      refine ⟨⟨.contains, keyword⟩ :: part, rfl, endsInSign_cons_of_comma nofun hlast,
        [nameLexeme anyName], .contains keyword s, ?_⟩
      rw [StatementTree.yield, ← hs]
      rfl
    · cases hf
  · rcases Except.bind_eq_error_iff.1 h with hr | ⟨found, -, hf⟩
    · refine (failsInside_relationship? hr).prepend [] ?_
      rintro text ⟨r, rfl⟩
      exact ⟨[], .relationship r, List.append_nil _⟩
    · split at hf <;> cases hf

theorem exists_trees_of_statements_error (h : statements ls = .error mistake) :
    ∃ (ss : List StatementTree) (rest : List Lexeme),
      ls = ss.flatMap StatementTree.yield ++ rest ∧ statement? rest = .error mistake := by
  fun_induction statements ls with
  | case1 ls mistake' hs =>
    cases h
    exact ⟨[], ls, rfl, hs⟩
  | case2 => cases h
  | case3 ls statement rest hs ih =>
    rcases Except.bind_eq_error_iff.1 h with ho | ⟨p, -, hf⟩
    · obtain ⟨s, rfl, -⟩ := exists_tree_of_statement? hs
      obtain ⟨ss, after, rfl, hmistake⟩ := ih ho
      exact ⟨s :: ss, after, by rw [List.flatMap_cons, List.append_assoc], hmistake⟩
    · cases hf

end ContextDiagram.Language
