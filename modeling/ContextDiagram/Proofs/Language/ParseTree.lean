import ContextDiagram.Proofs.Language.Reader
import ContextDiagram.Proofs.Outcome

namespace ContextDiagram.Language

open Source

def nameLexeme (name : Located String) : Lexeme :=
  ⟨.identifier name.value, name.span⟩

structure NameSeries where
  first : Located String
  others : List (Span × Located String)
deriving DecidableEq, Repr

structure TagGroup where
  opened : Span
  tags : NameSeries
  closed : Span
deriving DecidableEq, Repr

structure RelationshipTree where
  leading : Option TagGroup
  source : Located String
  trailing : Option TagGroup
  arrow : Located Direction
  tags : Option TagGroup
  target : Located String
deriving DecidableEq, Repr

inductive StatementTree
  | contains (keyword : Span) (names : NameSeries)
  | relationship (tree : RelationshipTree)
deriving DecidableEq, Repr

structure BlockTree where
  keyword : Span
  name : Option (Located String)
  opened : Span
  statements : List StatementTree
  closed : Span
deriving DecidableEq, Repr

/-- A source holds one block or none. -/
structure DocumentTree where
  block : Option BlockTree
deriving DecidableEq, Repr

namespace NameSeries

def yield (s : NameSeries) : List Lexeme :=
  nameLexeme s.first :: s.others.flatMap fun (comma, name) => [⟨.comma, comma⟩, nameLexeme name]

def names (s : NameSeries) : List (Located String) :=
  s.first :: s.others.map Prod.snd

end NameSeries

namespace TagGroup

def yield (g : TagGroup) : List Lexeme :=
  ⟨.openBracket, g.opened⟩ :: (g.tags.yield ++ [⟨.closeBracket, g.closed⟩])

def yield? : Option TagGroup → List Lexeme
  | none => []
  | some g => g.yield

def tags? : Option TagGroup → List (Located String)
  | none => []
  | some g => g.tags.names

end TagGroup

namespace RelationshipTree

def yield (r : RelationshipTree) : List Lexeme :=
  TagGroup.yield? r.leading ++ nameLexeme r.source :: (TagGroup.yield? r.trailing ++
    ⟨.arrow r.arrow.value, r.arrow.span⟩ :: (TagGroup.yield? r.tags ++ [nameLexeme r.target]))

/-- The tags of the source are those before its name, then those behind it. -/
def clause (r : RelationshipTree) : RelationshipClause where
  source := ⟨r.source, TagGroup.tags? r.leading ++ TagGroup.tags? r.trailing⟩
  arrow := r.arrow
  target := ⟨r.target, TagGroup.tags? r.tags⟩

end RelationshipTree

namespace StatementTree

def yield : StatementTree → List Lexeme
  | contains keyword names => ⟨.contains, keyword⟩ :: names.yield
  | relationship tree => tree.yield

def statement : StatementTree → Statement
  | contains _ names => .contains names.names
  | relationship tree => .relationship tree.clause

end StatementTree

namespace BlockTree

def yield (b : BlockTree) : List Lexeme :=
  ⟨.contextMap, b.keyword⟩ :: (b.name.toList.map nameLexeme ++ ⟨.openBrace, b.opened⟩ ::
    (b.statements.flatMap StatementTree.yield ++ [⟨.closeBrace, b.closed⟩]))

def block (b : BlockTree) : Block where
  span := b.keyword.union b.closed
  name := b.name
  statements := b.statements.map StatementTree.statement

end BlockTree

namespace DocumentTree

def yield (d : DocumentTree) : List Lexeme :=
  (d.block.map BlockTree.yield).getD []

def document (d : DocumentTree) : Document where
  block := d.block.map BlockTree.block

end DocumentTree

def NextIsNot (t : Token) (ls : List Lexeme) : Prop :=
  ∀ l ∈ ls.head?, l.token ≠ t

theorem nextIsNot_cons {t : Token} {l : Lexeme} {ls : List Lexeme} :
    NextIsNot t (l :: ls) ↔ l.token ≠ t := by
  simp only [NextIsNot, List.head?_cons, Option.mem_some_iff, forall_eq']

theorem NameSeries.yield_cons (first name : Located String) (comma : Span)
    (others : List (Span × Located String)) :
    yield ⟨first, (comma, name) :: others⟩ =
      nameLexeme first :: ⟨.comma, comma⟩ :: yield ⟨name, others⟩ := rfl

theorem names_yield_append {expected : Expectation} (s : NameSeries) {rest : List Lexeme}
    (h : NextIsNot .comma rest) : names expected (s.yield ++ rest) = .ok (s.names, rest) := by
  obtain ⟨first, others⟩ := s
  induction others generalizing first with
  | nil =>
    change names expected (⟨.identifier first.value, first.span⟩ :: rest) = _
    rw [names]
    · rfl
    · rintro comma rest rfl
      exact h _ rfl rfl
  | cons other others ih =>
    obtain ⟨comma, name⟩ := other
    rw [NameSeries.yield_cons]
    change names expected (⟨.identifier first.value, first.span⟩ :: ⟨.comma, comma⟩ ::
      (NameSeries.yield ⟨name, others⟩ ++ rest)) = _
    rw [names, ih]
    rfl

theorem exists_series_of_names {expected : Expectation} {ls rest : List Lexeme}
    {found : List (Located String)} (h : names expected ls = .ok (found, rest)) :
    ∃ s : NameSeries, ls = s.yield ++ rest ∧ found = s.names := by
  fun_induction names expected ls generalizing found with
  | case1 name span comma ls ih =>
    obtain ⟨⟨others, rest'⟩, hn, he⟩ := Except.bind_eq_ok_iff.1 h
    cases he
    obtain ⟨s, rfl, rfl⟩ := ih hn
    exact ⟨⟨⟨name, span⟩, (comma, s.first) :: s.others⟩, rfl, rfl⟩
  | case2 name span ls =>
    cases h
    exact ⟨⟨⟨name, span⟩, []⟩, rfl, rfl⟩
  | case3 => cases h

theorem tagList_yield_append (g : Option TagGroup) {rest : List Lexeme}
    (h : NextIsNot .openBracket rest) :
    tagList (TagGroup.yield? g ++ rest) = .ok (TagGroup.tags? g, rest) := by
  cases g with
  | none =>
    change tagList rest = .ok ([], rest)
    rw [tagList]
    rintro opened rest' rfl
    exact h _ rfl rfl
  | some g =>
    have hclosed : NextIsNot .comma (⟨.closeBracket, g.closed⟩ :: rest) :=
      nextIsNot_cons.2 nofun
    have hyield : TagGroup.yield? (some g) ++ rest = ⟨.openBracket, g.opened⟩ ::
        (g.tags.yield ++ ⟨.closeBracket, g.closed⟩ :: rest) := by
      simp [TagGroup.yield?, TagGroup.yield]
    rw [hyield, tagList, names_yield_append _ hclosed]
    rfl

theorem exists_group_of_tagList {ls rest : List Lexeme} {tags : List (Located String)}
    (h : tagList ls = .ok (tags, rest)) :
    ∃ g, ls = TagGroup.yield? g ++ rest ∧ tags = TagGroup.tags? g := by
  unfold tagList at h
  split at h
  · next opened ls =>
    obtain ⟨⟨found, after⟩, hn, hf⟩ := Except.bind_eq_ok_iff.1 h
    obtain ⟨s, rfl, rfl⟩ := exists_series_of_names hn
    split at hf
    · next closed after hp =>
      cases hp
      cases hf
      exact ⟨some ⟨opened, s, closed⟩, by simp [TagGroup.yield?, TagGroup.yield], rfl⟩
    · cases hf
  · cases h
    exact ⟨none, rfl, rfl⟩

theorem relationship?_yield_append (r : RelationshipTree) (rest : List Lexeme) :
    relationship? (r.yield ++ rest) = .ok (some (r.clause, rest)) := by
  simp only [RelationshipTree.yield, List.append_assoc, List.cons_append, nameLexeme]
  rw [relationship?, tagList_yield_append]
  · dsimp only [bind, Except.bind]
    rw [tagList_yield_append]
    · dsimp only
      rw [tagList_yield_append]
      · rfl
      · exact nextIsNot_cons.2 fun h => by cases h
    · exact nextIsNot_cons.2 fun h => by cases h
  · exact nextIsNot_cons.2 fun h => by cases h

theorem exists_tree_of_relationship? {ls rest : List Lexeme} {clause : RelationshipClause}
    (h : relationship? ls = .ok (some (clause, rest))) :
    ∃ r : RelationshipTree, ls = r.yield ++ rest ∧ clause = r.clause := by
  obtain ⟨⟨leading, rest₁⟩, h₁, hr₁⟩ := Except.bind_eq_ok_iff.1 h
  obtain ⟨g₁, rfl, rfl⟩ := exists_group_of_tagList h₁
  split at hr₁
  · next source sourceSpan _ hp =>
    cases hp
    obtain ⟨⟨trailing, rest₂⟩, h₂, hr₂⟩ := Except.bind_eq_ok_iff.1 hr₁
    obtain ⟨g₂, rfl, rfl⟩ := exists_group_of_tagList h₂
    split at hr₂
    · next direction arrowSpan _ hp =>
      cases hp
      obtain ⟨⟨tags, rest₃⟩, h₃, hr₃⟩ := Except.bind_eq_ok_iff.1 hr₂
      obtain ⟨g₃, rfl, rfl⟩ := exists_group_of_tagList h₃
      split at hr₃
      · next target targetSpan _ hp =>
        cases hp
        cases hr₃
        refine ⟨⟨g₁, ⟨source, sourceSpan⟩, g₂, ⟨direction, arrowSpan⟩, g₃,
          ⟨target, targetSpan⟩⟩, ?_, rfl⟩
        simp [RelationshipTree.yield, nameLexeme]
      · cases hr₃
    · cases hr₂
  · cases hr₁

theorem StatementTree.exists_head (s : StatementTree) :
    ∃ l ls, s.yield = l :: ls ∧ l.token ≠ .comma ∧ l.token ≠ .closeBrace := by
  cases s with
  | contains keyword names => exact ⟨_, _, rfl, nofun, nofun⟩
  | relationship tree =>
    cases hl : tree.leading with
    | none =>
      rw [yield, RelationshipTree.yield, hl]
      exact ⟨_, _, rfl, nofun, nofun⟩
    | some g =>
      rw [yield, RelationshipTree.yield, hl]
      exact ⟨_, _, rfl, nofun, nofun⟩

theorem nextIsNot_comma_flatMap_yield (ss : List StatementTree) {rest : List Lexeme}
    (h : NextIsNot .comma rest) :
    NextIsNot .comma (ss.flatMap StatementTree.yield ++ rest) := by
  cases ss with
  | nil => exact h
  | cons s ss =>
    obtain ⟨l, ls, hs, hl, -⟩ := s.exists_head
    rw [List.flatMap_cons, hs]
    exact nextIsNot_cons.2 hl

theorem statement?_yield_append (s : StatementTree) {rest : List Lexeme}
    (h : NextIsNot .comma rest) :
    statement? (s.yield ++ rest) = .ok (some (s.statement, rest)) := by
  cases s with
  | contains keyword names =>
    rw [StatementTree.yield, List.cons_append, statement?, names_yield_append names h]
    rfl
  | relationship tree =>
    rw [StatementTree.yield, statement?, relationship?_yield_append]
    · rfl
    · intro keyword ls hls
      rw [RelationshipTree.yield] at hls
      cases hl : tree.leading with
      | none =>
        rw [hl] at hls
        cases hls
      | some g =>
        rw [hl] at hls
        cases hls

theorem exists_tree_of_statement? {ls rest : List Lexeme} {statement : Statement}
    (h : statement? ls = .ok (some (statement, rest))) :
    ∃ s : StatementTree, ls = s.yield ++ rest ∧ statement = s.statement := by
  unfold statement? at h
  split at h
  · next keyword ls =>
    obtain ⟨⟨found, after⟩, hn, hf⟩ := Except.bind_eq_ok_iff.1 h
    cases hf
    obtain ⟨s, rfl, rfl⟩ := exists_series_of_names hn
    exact ⟨.contains keyword s, rfl, rfl⟩
  · obtain ⟨found, hr, hf⟩ := Except.bind_eq_ok_iff.1 h
    split at hf
    · cases hf
      obtain ⟨r, rfl, rfl⟩ := exists_tree_of_relationship? hr
      exact ⟨.relationship r, rfl, rfl⟩
    · cases hf

theorem statements_of_none {ls : List Lexeme} (h : statement? ls = .ok none) :
    statements ls = .ok ([], ls) := by
  rw [statements]
  split
  · next hs => cases h.symm.trans hs
  · rfl
  · next hs => cases h.symm.trans hs

theorem statements_of_some {ls rest : List Lexeme} {statement : Statement}
    (h : statement? ls = .ok (some (statement, rest))) :
    statements ls = statements rest >>= fun (others, rest) => pure (statement :: others, rest) := by
  rw [statements]
  split
  · next hs => cases h.symm.trans hs
  · next hs => cases h.symm.trans hs
  · next hs =>
    cases h.symm.trans hs
    rfl

theorem statements_yield_append (ss : List StatementTree) {rest : List Lexeme}
    (hcomma : NextIsNot .comma rest) (hnone : statement? rest = .ok none) :
    statements (ss.flatMap StatementTree.yield ++ rest) =
      .ok (ss.map StatementTree.statement, rest) := by
  induction ss with
  | nil => exact statements_of_none hnone
  | cons s ss ih =>
    rw [List.flatMap_cons, List.append_assoc,
      statements_of_some (statement?_yield_append s (nextIsNot_comma_flatMap_yield ss hcomma)), ih]
    rfl

theorem exists_trees_of_statements {ls rest : List Lexeme} {found : List Statement}
    (h : statements ls = .ok (found, rest)) :
    ∃ ss : List StatementTree, ls = ss.flatMap StatementTree.yield ++ rest ∧
      found = ss.map StatementTree.statement := by
  fun_induction statements ls generalizing found with
  | case1 => cases h
  | case2 =>
    cases h
    exact ⟨[], rfl, rfl⟩
  | case3 ls statement rest' hs ih =>
    obtain ⟨⟨others, after⟩, ho, he⟩ := Except.bind_eq_ok_iff.1 h
    cases he
    obtain ⟨s, rfl, rfl⟩ := exists_tree_of_statement? hs
    obtain ⟨ss, rfl, rfl⟩ := ih ho
    exact ⟨s :: ss, by simp, rfl⟩

theorem blockName_append (name : Option (Located String)) (opened : Span) (rest : List Lexeme) :
    blockName (name.toList.map nameLexeme ++ ⟨.openBrace, opened⟩ :: rest) =
      (name, ⟨.openBrace, opened⟩ :: rest) := by
  cases name <;> rfl

theorem eq_append_of_blockName {ls rest : List Lexeme} {name : Option (Located String)}
    (h : blockName ls = (name, rest)) : ls = name.toList.map nameLexeme ++ rest := by
  unfold blockName at h
  split at h <;> cases h <;> rfl

theorem document_yield (d : DocumentTree) : document d.yield = .ok d.document := by
  obtain ⟨block⟩ := d
  cases block with
  | none => rfl
  | some b =>
    have hclosed : NextIsNot .comma [⟨.closeBrace, b.closed⟩] := nextIsNot_cons.2 nofun
    change document b.yield = .ok ⟨some b.block⟩
    rw [BlockTree.yield, document, blockName_append]
    dsimp only
    rw [statements_yield_append b.statements hclosed rfl]
    rfl

theorem exists_tree_of_document {ls : List Lexeme} {d : Document} (h : document ls = .ok d) :
    ∃ t : DocumentTree, t.yield = ls ∧ t.document = d := by
  unfold document at h
  split at h
  · cases h
    exact ⟨⟨none⟩, rfl, rfl⟩
  · next keyword ls =>
    split at h
    · next name opened ls hname =>
      obtain ⟨⟨found, after⟩, hs, hf⟩ := Except.bind_eq_ok_iff.1 h
      obtain ⟨ss, rfl, rfl⟩ := exists_trees_of_statements hs
      split at hf
      · cases hf
      · next closed hp =>
        cases hp
        cases hf
        refine ⟨⟨some ⟨keyword, name, opened, ss, closed⟩⟩, ?_, rfl⟩
        rw [eq_append_of_blockName hname]
        rfl
      · cases hf
      · cases hf
    · cases h
  · cases h

theorem document_eq_ok_iff {ls : List Lexeme} {d : Document} :
    document ls = .ok d ↔ ∃ t : DocumentTree, t.yield = ls ∧ t.document = d := by
  constructor
  · exact exists_tree_of_document
  · intro h
    obtain ⟨t, rfl, rfl⟩ := h
    exact document_yield t

end ContextDiagram.Language
