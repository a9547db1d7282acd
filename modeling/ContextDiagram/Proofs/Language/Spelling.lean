import ContextDiagram.Language.Scan

namespace ContextDiagram.Text

theorem splitAtCommentEnd_eq_some_iff {cs body after : List Char} :
    splitAtCommentEnd cs = some (body, after) ↔
      cs = body ++ '*' :: '/' :: after ∧ ¬['*', '/'] <:+: body := by
  fun_induction splitAtCommentEnd cs generalizing body with
  | case1 =>
    constructor
    · intro h
      cases h
    · intro h
      obtain ⟨h, -⟩ := h
      simp at h
  | case2 rest =>
    constructor
    · intro h
      cases h
      exact ⟨rfl, fun h => by cases List.infix_nil.1 h⟩
    · intro h
      obtain ⟨h, hb⟩ := h
      cases body with
      | nil =>
        cases h
        rfl
      | cons c body =>
        cases body with
        | nil => simp at h
        | cons d body =>
          simp only [List.cons_append, List.cons.injEq] at h
          obtain ⟨rfl, rfl, -⟩ := h
          exact absurd (List.prefix_append ['*', '/'] body).isInfix hb
  | case3 c rest hc ih =>
    constructor
    · intro h
      obtain ⟨⟨b, a⟩, hs, he⟩ := Option.map_eq_some_iff.1 h
      cases he
      obtain ⟨rfl, hb⟩ := ih.1 hs
      refine ⟨rfl, fun hi => ?_⟩
      rcases List.infix_cons_iff.1 hi with hp | hi
      · obtain ⟨b', hb'⟩ := hp
        obtain ⟨rfl, rfl⟩ := List.cons.inj hb'
        exact hc _ rfl rfl
      · exact hb hi
    · intro h
      obtain ⟨h, hb⟩ := h
      cases body with
      | nil =>
        obtain ⟨rfl, rfl⟩ := List.cons.inj h
        exact absurd rfl (hc after rfl)
      | cons d body =>
        obtain ⟨rfl, rfl⟩ := List.cons.inj h
        have hs := ih.2 ⟨rfl, fun hi => hb (List.infix_cons hi)⟩
        exact Option.map_eq_some_iff.2 ⟨(body, after), hs, rfl⟩

end ContextDiagram.Text

namespace ContextDiagram.Language

theorem takeWhile_dropWhile_eq {α : Type} {p : α → Bool} {cs rest : List α}
    (hc : ∀ c ∈ cs, p c = true) (hr : ∀ c ∈ rest.head?, p c = false) :
    (cs ++ rest).takeWhile p = cs ∧ (cs ++ rest).dropWhile p = rest := by
  rw [List.takeWhile_append_of_pos hc, List.dropWhile_append_of_pos hc]
  cases rest with
  | nil => simp
  | cons c rest => simp [hr c rfl]

theorem head_dropWhile_eq_false (p : Char → Bool) (cs : List Char) :
    ∀ c ∈ (cs.dropWhile p).head?, p c = false := by
  intro c hc
  have h := List.head?_dropWhile_not p cs
  rw [Option.mem_def.1 hc] at h
  exact h

theorem eq_true_of_mem_takeWhile {p : Char → Bool} {cs : List Char} :
    ∀ c ∈ cs.takeWhile p, p c = true :=
  List.all_eq_true.1 List.all_takeWhile

/-- A word starts with a letter or an underscore and goes on with letters, digits and
underscores. -/
def IsWord : List Char → Prop
  | [] => False
  | c :: cs => isWordStart c = true ∧ ∀ d ∈ cs, isWordChar d = true

def IsIdentifier (name : String) : Prop :=
  IsWord name.toList ∧ name ≠ "ContextMap" ∧ name ≠ "contains"

namespace Token

def Spelling : Token → List Char → Prop
  | contextMap, cs => cs = "ContextMap".toList
  | contains, cs => cs = "contains".toList
  | identifier name, cs => cs = name.toList ∧ IsIdentifier name
  | arrow direction, cs => cs = direction.text.toList
  | openBrace, cs => cs = ['{']
  | closeBrace, cs => cs = ['}']
  | openBracket, cs => cs = ['[']
  | closeBracket, cs => cs = [']']
  | comma, cs => cs = [',']
  | blockComment body, cs =>
    cs = '/' :: '*' :: (body.toList ++ ['*', '/']) ∧ ¬['*', '/'] <:+: body.toList
  | lineComment body, cs => cs = '/' :: '/' :: body.toList ∧ '\n' ∉ body.toList
  | blanks, cs => cs ≠ [] ∧ ∀ c ∈ cs, isInlineBlank c = true
  | newline, cs => cs = ['\n']

def isWord : Token → Bool
  | contextMap | contains | identifier _ => true
  | _ => false

/-- Whether a character right after a token belongs to it, or makes another token of it. -/
def goesOn : Token → Char → Bool
  | contextMap, c | contains, c | identifier _, c => isWordChar c
  | arrow .toSource, c => c == '>'
  | lineComment _, c => c != '\n'
  | blanks, c => isInlineBlank c
  | _, _ => false

def EndsBefore (t : Token) (rest : List Char) : Prop :=
  ∀ c ∈ rest.head?, t.goesOn c = false

end Token

theorem isWordChar_of_isWordStart {c : Char} (h : isWordStart c = true) : isWordChar c = true := by
  simp only [isWordStart, isWordChar, Char.isAlphanum, Bool.or_eq_true] at *
  exact h.imp_left .inl

theorem IsWord.all_isWordChar {word : List Char} (h : IsWord word) :
    ∀ c ∈ word, isWordChar c = true := by
  cases word with
  | nil => cases h
  | cons c cs =>
    intro d hd
    rcases List.mem_cons.1 hd with rfl | hd
    · exact isWordChar_of_isWordStart h.1
    · exact h.2 d hd

theorem Token.isWord_ofWord (word : List Char) : (Token.ofWord word).isWord = true := by
  unfold Token.ofWord
  split <;> rfl

theorem Token.spelling_ofWord {word : List Char} (h : IsWord word) :
    (Token.ofWord word).Spelling word := by
  unfold Token.ofWord
  split
  · next he => rw [Spelling, ← he, String.toList_ofList]
  · next he => rw [Spelling, ← he, String.toList_ofList]
  · next h₁ h₂ =>
    have hw : word = (String.ofList word).toList := String.toList_ofList.symm
    exact ⟨hw, hw ▸ h, h₁, h₂⟩

theorem Token.ofWord_eq {t : Token} {word : List Char} (ht : t.isWord = true)
    (hs : t.Spelling word) : Token.ofWord word = t := by
  cases t with
  | contextMap =>
    cases hs
    rfl
  | contains =>
    cases hs
    rfl
  | identifier name =>
    obtain ⟨rfl, -, h₁, h₂⟩ := hs
    unfold Token.ofWord
    rw [String.ofList_toList]
    split
    · exact absurd rfl h₁
    · exact absurd rfl h₂
    · rfl
  | _ => cases ht

theorem Token.Spelling.isWord {t : Token} {word : List Char} (hs : t.Spelling word)
    (ht : t.isWord = true) : IsWord word := by
  cases t with
  | contextMap =>
    cases hs
    exact ⟨rfl, List.all_eq_true.1 rfl⟩
  | contains =>
    cases hs
    exact ⟨rfl, List.all_eq_true.1 rfl⟩
  | identifier name =>
    obtain ⟨rfl, hw, -⟩ := hs
    exact hw
  | _ => cases ht

theorem toNat_of_isWordChar {c : Char} (h : isWordChar c = true) :
    48 ≤ c.toNat ∧ c.toNat ≤ 57 ∨ 65 ≤ c.toNat ∧ c.toNat ≤ 90 ∨ 95 ≤ c.toNat ∧ c.toNat ≤ 122 := by
  simp only [isWordChar, Char.isAlphanum] at h
  delta Char.isAlpha Char.isUpper Char.isLower at h
  simp only [Char.isDigit, Bool.or_eq_true, Bool.and_eq_true, decide_eq_true_eq,
    UInt32.le_iff_toNat_le, beq_iff_eq, ge_iff_le] at h
  change (((65 ≤ c.toNat ∧ c.toNat ≤ 90) ∨ (97 ≤ c.toNat ∧ c.toNat ≤ 122)) ∨
    (48 ≤ c.toNat ∧ c.toNat ≤ 57)) ∨ c = '_' at h
  rcases h with ((h | h) | h) | rfl
  · omega
  · omega
  · omega
  · decide

theorem isBlank_of_isWordChar {c : Char} (h : isWordChar c = true) : Text.isBlank c = false := by
  have := toNat_of_isWordChar h
  simp only [Text.isBlank, Text.blankRanges, List.any_cons, List.any_nil, Bool.or_eq_false_iff,
    Bool.and_eq_false_iff, decide_eq_false_iff_not, and_true]
  omega

theorem isWordChar_of_isBlank {c : Char} (h : Text.isBlank c = true) : isWordChar c = false :=
  Bool.eq_false_iff.2 fun hw => Bool.eq_false_iff.1 (isBlank_of_isWordChar hw) h

theorem isBlank_of_isInlineBlank {c : Char} (h : isInlineBlank c = true) :
    Text.isBlank c = true :=
  (Bool.and_eq_true_iff.1 h).1

theorem isInlineBlank_of_isWordChar {c : Char} (h : isWordChar c = true) :
    isInlineBlank c = false := by
  rw [isInlineBlank, isBlank_of_isWordChar h, Bool.false_and]

theorem beginning_of_isWordStart {c : Char} {cs : List Char} (h : isWordStart c = true) :
    beginning (c :: cs) = .token (.ofWord (c :: cs.takeWhile isWordChar))
      (c :: cs.takeWhile isWordChar) (cs.dropWhile isWordChar) := by
  unfold beginning
  split
  case h_12 he =>
    obtain ⟨rfl, rfl⟩ := List.cons.inj he
    rw [if_pos h]
  case h_13 he => cases he
  all_goals
    obtain ⟨rfl, -⟩ := List.cons.inj ‹_ = _›
    exact absurd h (by decide)

theorem beginning_of_isInlineBlank {c : Char} {cs : List Char} (h : isInlineBlank c = true) :
    beginning (c :: cs) = .token .blanks (c :: cs.takeWhile isInlineBlank)
      (cs.dropWhile isInlineBlank) := by
  unfold beginning
  split
  case h_12 he =>
    obtain ⟨rfl, rfl⟩ := List.cons.inj he
    rw [if_neg, if_pos h]
    intro hw
    rw [isInlineBlank_of_isWordChar (isWordChar_of_isWordStart hw)] at h
    cases h
  case h_13 he => cases he
  all_goals
    obtain ⟨rfl, -⟩ := List.cons.inj ‹_ = _›
    exact absurd h (by decide)

theorem Token.endsBefore_of_isWord {t : Token} {rest : List Char} (h : t.isWord = true) :
    t.EndsBefore rest ↔ ∀ c ∈ rest.head?, isWordChar c = false := by
  cases t with
  | contextMap => rfl
  | contains => rfl
  | identifier name => rfl
  | _ => cases h

/-- What is taken of a text spells the token, and no more belongs to it. -/
theorem spelling_of_beginning {cs taken rest : List Char} {t : Token}
    (h : beginning cs = .token t taken rest) : t.Spelling taken ∧ t.EndsBefore rest := by
  unfold beginning at h
  split at h
  case h_1 =>
    split at h
    · next hs =>
      cases h
      refine ⟨?_, fun _ _ => rfl⟩
      rw [Token.Spelling, String.toList_ofList]
      exact ⟨rfl, (Text.splitAtCommentEnd_eq_some_iff.1 hs).2⟩
    · cases h
  case h_2 cs =>
    cases h
    refine ⟨?_, head_dropWhile_eq_false _ cs⟩
    rw [Token.Spelling, String.toList_ofList]
    refine ⟨rfl, fun hn => ?_⟩
    simpa using eq_true_of_mem_takeWhile '\n' hn
  case h_5 cs hb =>
    cases h
    refine ⟨rfl, fun c hc => ?_⟩
    rw [Token.goesOn, beq_eq_false_iff_ne]
    intro he
    subst he
    obtain ⟨rest, rfl⟩ := List.head?_eq_some_iff.1 hc
    exact hb rest rfl
  case h_12 c cs _ _ _ _ _ _ _ _ _ _ _ =>
    split at h
    · next hw =>
      cases h
      have hword : IsWord (c :: cs.takeWhile isWordChar) := ⟨hw, eq_true_of_mem_takeWhile⟩
      refine ⟨Token.spelling_ofWord hword, ?_⟩
      rw [Token.endsBefore_of_isWord (Token.isWord_ofWord _)]
      exact head_dropWhile_eq_false _ cs
    · split at h
      · next hb =>
        cases h
        refine ⟨⟨List.cons_ne_nil _ _, ?_⟩, head_dropWhile_eq_false _ cs⟩
        exact List.forall_mem_cons.2 ⟨hb, eq_true_of_mem_takeWhile⟩
      · cases h
  case h_13 => cases h
  all_goals
    cases h
    exact ⟨rfl, fun _ _ => rfl⟩

theorem beginning_append_of_isWord {taken rest : List Char} {t : Token} (ht : t.isWord = true)
    (hs : t.Spelling taken) (he : t.EndsBefore rest) :
    beginning (taken ++ rest) = .token t taken rest := by
  have hw := hs.isWord ht
  cases taken with
  | nil => cases hw
  | cons c cs =>
    rw [Token.endsBefore_of_isWord ht] at he
    obtain ⟨h₁, h₂⟩ := takeWhile_dropWhile_eq hw.2 he
    rw [List.cons_append, beginning_of_isWordStart hw.1, h₁, h₂, Token.ofWord_eq ht hs]

/-- A spelling that ends where the text goes on is what the text begins with. -/
theorem beginning_append {taken rest : List Char} {t : Token} (hs : t.Spelling taken)
    (he : t.EndsBefore rest) : beginning (taken ++ rest) = .token t taken rest := by
  cases t with
  | contextMap => exact beginning_append_of_isWord rfl hs he
  | contains => exact beginning_append_of_isWord rfl hs he
  | identifier name => exact beginning_append_of_isWord rfl hs he
  | arrow direction =>
    obtain rfl := hs
    cases direction with
    | toTarget => rfl
    | toSource =>
      change beginning ('<' :: '-' :: rest) = _
      rw [beginning]
      · rfl
      · rintro rest rfl
        cases he '>' rfl
    | toBoth => rfl
  | blockComment body =>
    obtain ⟨rfl, hb⟩ := hs
    have hsplit : Text.splitAtCommentEnd (body.toList ++ '*' :: '/' :: rest) =
        some (body.toList, rest) := Text.splitAtCommentEnd_eq_some_iff.2 ⟨rfl, hb⟩
    change beginning ('/' :: '*' :: (body.toList ++ ['*', '/'] ++ rest)) = _
    rw [List.append_assoc, beginning]
    simp only [List.cons_append, List.nil_append, hsplit, String.ofList_toList]
  | lineComment body =>
    obtain ⟨rfl, hb⟩ := hs
    have hbody : ∀ c ∈ body.toList, (c != '\n') = true := by
      intro c hc
      rw [bne_iff_ne]
      intro he
      subst he
      exact hb hc
    obtain ⟨h₁, h₂⟩ := takeWhile_dropWhile_eq hbody he
    rw [List.cons_append, List.cons_append, beginning, h₁, h₂, String.ofList_toList]
  | blanks =>
    obtain ⟨hne, hb⟩ := hs
    cases taken with
    | nil => exact absurd rfl hne
    | cons c cs =>
      obtain ⟨hc, hcs⟩ := List.forall_mem_cons.1 hb
      obtain ⟨h₁, h₂⟩ := takeWhile_dropWhile_eq hcs he
      rw [List.cons_append, beginning_of_isInlineBlank hc, h₁, h₂]
  | _ =>
    obtain rfl := hs
    rfl

theorem beginning_eq_token_iff {cs taken rest : List Char} {t : Token} :
    beginning cs = .token t taken rest ↔
      cs = taken ++ rest ∧ t.Spelling taken ∧ t.EndsBefore rest := by
  constructor
  · intro h
    exact ⟨beginning_eq_append h, spelling_of_beginning h⟩
  · intro h
    obtain ⟨rfl, hs, he⟩ := h
    exact beginning_append hs he

end ContextDiagram.Language
