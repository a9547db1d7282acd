import ContextDiagram.Proofs.Language.Tiling

namespace ContextDiagram.Text

theorem splitAtCommentEnd_eq_none_iff {cs : List Char} :
    splitAtCommentEnd cs = none ↔ ¬['*', '/'] <:+: cs := by
  fun_induction splitAtCommentEnd cs with
  | case1 => exact iff_of_true rfl fun h => by cases List.infix_nil.1 h
  | case2 rest =>
    have hinfix : ['*', '/'] <:+: '*' :: '/' :: rest := (List.prefix_append ['*', '/'] rest).isInfix
    exact iff_of_false (fun h => by cases h) fun h => h hinfix
  | case3 c rest hc ih =>
    have hprefix : ¬['*', '/'] <+: c :: rest := by
      intro h
      obtain ⟨after, h⟩ := h
      obtain ⟨rfl, rfl⟩ := List.cons.inj h
      exact hc after rfl rfl
    rw [Option.map_eq_none_iff, ih, List.infix_cons_iff, not_or, and_iff_right hprefix]

end ContextDiagram.Text

namespace ContextDiagram.Language

/-- Whether a text begins with a token that is written as `taken` and with no longer one. -/
structure Token.IsLongestIn (t : Token) (taken cs : List Char) : Prop where
  spelling : t.Spelling taken
  isPrefix : taken <+: cs
  length_le : ∀ (u : Token) (text : List Char), u.Spelling text → text <+: cs →
    text.length ≤ taken.length

def BeginsNoToken (cs : List Char) : Prop :=
  ∀ (t : Token) (text : List Char), t.Spelling text → ¬text <+: cs

def IsUnclosedComment (cs : List Char) : Prop :=
  ∃ rest, cs = '/' :: '*' :: rest ∧ ¬['*', '/'] <:+: rest

theorem IsWord.concat {word : List Char} {c : Char} (h : IsWord word) (hc : isWordChar c = true) :
    IsWord (word ++ [c]) := by
  cases word with
  | nil => cases h
  | cons d ds =>
    refine ⟨h.1, ?_⟩
    intro e he
    rcases List.mem_append.1 he with he | he
    · exact h.2 e he
    · rw [List.mem_singleton.1 he]
      exact hc

variable {t u : Token} {cs taken rest text : List Char} {c : Char}

theorem Token.endsBefore_nil : t.EndsBefore [] :=
  nofun

theorem Token.endsBefore_cons : t.EndsBefore (c :: cs) ↔ t.goesOn c = false := by
  simp only [EndsBefore, List.head?_cons, Option.mem_some_iff, forall_eq']

theorem Token.Spelling.exists_isWord_concat (hs : t.Spelling text) (ht : t.isWord = true)
    (hc : isWordChar c = true) : ∃ u : Token, u.Spelling (text ++ [c]) :=
  ⟨.ofWord (text ++ [c]), Token.spelling_ofWord ((hs.isWord ht).concat hc)⟩

theorem Token.Spelling.exists_concat (hs : t.Spelling text) (hc : t.goesOn c = true) :
    ∃ u : Token, u.Spelling (text ++ [c]) := by
  cases t with
  | contextMap => exact hs.exists_isWord_concat rfl hc
  | contains => exact hs.exists_isWord_concat rfl hc
  | identifier name => exact hs.exists_isWord_concat rfl hc
  | arrow direction =>
    cases direction with
    | toSource =>
      obtain rfl := hs
      obtain rfl : c = '>' := eq_of_beq hc
      exact ⟨.arrow .toBoth, rfl⟩
    | _ => cases hc
  | lineComment body =>
    obtain ⟨rfl, hbody⟩ := hs
    refine ⟨.lineComment (String.ofList (body.toList ++ [c])), ?_⟩
    rw [Spelling, String.toList_ofList]
    refine ⟨rfl, ?_⟩
    intro hmem
    rcases List.mem_append.1 hmem with hmem | hmem
    · exact hbody hmem
    · exact bne_iff_ne.1 hc (List.mem_singleton.1 hmem).symm
  | blanks =>
    refine ⟨.blanks, List.append_ne_nil_of_left_ne_nil hs.1 _, ?_⟩
    intro d hd
    rcases List.mem_append.1 hd with hd | hd
    · exact hs.2 d hd
    · rw [List.mem_singleton.1 hd]
      exact hc
  | _ => cases hc

theorem Token.Spelling.unique (ht : t.Spelling text) (hu : u.Spelling text) : t = u := by
  have h := beginning_append ht endsBefore_nil
  rw [beginning_append hu endsBefore_nil] at h
  cases h
  rfl

/-- A text that begins with a spelling begins with a token: one that spelling may still grow to. -/
theorem Token.Spelling.exists_beginning (hs : t.Spelling text) (rest : List Char) :
    ∃ u taken after, beginning (text ++ rest) = .token u taken after := by
  induction rest generalizing t text with
  | nil => exact ⟨t, text, [], beginning_append hs endsBefore_nil⟩
  | cons c rest ih =>
    cases hc : t.goesOn c with
    | false => exact ⟨t, text, c :: rest, beginning_append hs (endsBefore_cons.2 hc)⟩
    | true =>
      obtain ⟨u, hu⟩ := hs.exists_concat hc
      have hlonger := ih hu
      rwa [List.append_assoc, List.singleton_append] at hlonger

/-- The token that a text begins with is the longest one: a longer one would begin with it too, and
go on where it has to end. -/
theorem isLongestIn_of_beginning (h : beginning cs = .token t taken rest) :
    t.IsLongestIn taken cs := by
  obtain ⟨rfl, hs, he⟩ := beginning_eq_token_iff.1 h
  refine ⟨hs, List.prefix_append _ _, ?_⟩
  intro u text hu htext
  rcases Nat.le_total text.length taken.length with hle | hle
  · exact hle
  · obtain ⟨more, rfl⟩ :=
      List.prefix_of_prefix_length_le (List.prefix_append taken rest) htext hle
    obtain ⟨after, rfl⟩ := (List.prefix_append_right_inj taken).1 htext
    have hmore : t.EndsBefore more := by
      cases more with
      | nil => exact Token.endsBefore_nil
      | cons c more => exact Token.endsBefore_cons.2 (Token.endsBefore_cons.1 he)
    have hlonger := beginning_append hu Token.endsBefore_nil
    rw [List.append_nil, beginning_append hs hmore] at hlonger
    obtain ⟨-, htaken, -⟩ := Beginning.token.inj hlonger
    rw [← htaken]

theorem beginning_append_eq_token_iff :
    beginning (taken ++ rest) = .token t taken rest ↔ t.IsLongestIn taken (taken ++ rest) := by
  constructor
  · exact isLongestIn_of_beginning
  · intro h
    obtain ⟨u, text, after, hb⟩ := h.spelling.exists_beginning rest
    have hlongest := isLongestIn_of_beginning hb
    have hlength := Nat.le_antisymm (h.length_le u text hlongest.spelling hlongest.isPrefix)
      (hlongest.length_le t taken h.spelling h.isPrefix)
    obtain ⟨rfl, rfl⟩ := List.append_inj (beginning_eq_append hb) hlength.symm
    rw [hb, hlongest.spelling.unique h.spelling]

theorem beginning_eq_unclosedComment_iff :
    beginning cs = .unclosedComment ↔ IsUnclosedComment cs := by
  constructor
  · intro h
    unfold beginning at h
    split at h
    case h_1 rest =>
      split at h
      · cases h
      · next hs => exact ⟨rest, rfl, Text.splitAtCommentEnd_eq_none_iff.1 hs⟩
    case h_12 =>
      split at h
      · cases h
      · split at h <;> cases h
    all_goals cases h
  · intro h
    obtain ⟨rest, rfl, hrest⟩ := h
    rw [beginning, Text.splitAtCommentEnd_eq_none_iff.2 hrest]

theorem beginning_eq_nothing_iff :
    beginning cs = .nothing ↔ BeginsNoToken cs ∧ ¬IsUnclosedComment cs := by
  constructor
  · intro h
    constructor
    · intro t text hs htext
      obtain ⟨rest, rfl⟩ := htext
      obtain ⟨u, taken, after, hb⟩ := hs.exists_beginning rest
      cases h.symm.trans hb
    · intro hopen
      cases h.symm.trans (beginning_eq_unclosedComment_iff.2 hopen)
  · intro h
    obtain ⟨hnone, hopen⟩ := h
    cases hb : beginning cs with
    | token t taken rest =>
      have hlongest := isLongestIn_of_beginning hb
      exact absurd hlongest.isPrefix (hnone t taken hlongest.spelling)
    | unclosedComment => exact absurd (beginning_eq_unclosedComment_iff.1 hb) hopen
    | nothing => rfl

end ContextDiagram.Language
