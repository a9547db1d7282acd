import ContextDiagram.Language.Reading
import ContextDiagram.Proofs.Language.Tiling
import ContextDiagram.Proofs.Language.Refinement

namespace ContextDiagram.Language

open Source

/-- A text that writes tokens in order, with blanks, line ends and comments anywhere between them. A
line comment goes on to the end of its line. If the text comes directly after a word, it may not
begin with another one. -/
inductive Writes : Bool → List Token → List Char → Prop
  | nil {afterWord : Bool} : Writes afterWord [] []
  | blank {afterWord : Bool} {ts : List Token} {c : Char} {cs : List Char} :
      Text.isBlank c = true → Writes false ts cs → Writes afterWord ts (c :: cs)
  | blockComment {afterWord : Bool} {ts : List Token} {body cs : List Char} :
      ¬['*', '/'] <:+: body → Writes false ts cs →
      Writes afterWord ts ('/' :: '*' :: (body ++ '*' :: '/' :: cs))
  | lineComment {afterWord : Bool} {ts : List Token} {body cs : List Char} :
      '\n' ∉ body → (∀ c ∈ cs.head?, c = '\n') → Writes false ts cs →
      Writes afterWord ts ('/' :: '/' :: (body ++ cs))
  | token {afterWord : Bool} {t : Token} {ts : List Token} {text cs : List Char} :
      t.isTrivia = false → t.Spelling text → (afterWord = true → t.isWord = false) →
      Writes t.isWord ts cs → Writes afterWord (t :: ts) (text ++ cs)

theorem Writes.blanks {afterWord : Bool} {ts : List Token} {text cs : List Char}
    (ht : ∀ c ∈ text, isInlineBlank c = true) (hne : text ≠ []) (h : Writes false ts cs) :
    Writes afterWord ts (text ++ cs) := by
  induction text generalizing afterWord with
  | nil => exact absurd rfl hne
  | cons c text ih =>
    obtain ⟨hc, ht⟩ := List.forall_mem_cons.1 ht
    have hb := isBlank_of_isInlineBlank hc
    cases text with
    | nil => exact .blank hb h
    | cons d text => exact .blank hb (ih ht (List.cons_ne_nil _ _))

theorem Cuts.writes {offset : Nat} {cs : List Char} {ls : List Lexeme} {afterWord : Bool}
    (h : Cuts offset cs ls) (hw : afterWord = true → ∀ c ∈ cs.head?, isWordChar c = false) :
    Writes afterWord ((meaningful ls).map Lexeme.token) cs := by
  induction ls generalizing offset cs afterWord with
  | nil =>
    obtain rfl : cs = [] := h
    exact .nil
  | cons l ls ih =>
    obtain ⟨taken, rest, rfl, hs, he, -, hrest⟩ := h
    by_cases ht : l.token.isTrivia = true
    · have hwrites : Writes false ((meaningful ls).map Lexeme.token) rest := ih hrest nofun
      rw [meaningful_cons_of_isTrivia ht]
      obtain ⟨t, span⟩ := l
      cases t with
      | blanks => exact .blanks hs.2 hs.1 hwrites
      | newline =>
        obtain rfl := hs
        exact .blank (by decide) hwrites
      | blockComment body =>
        obtain ⟨rfl, hb⟩ := hs
        simpa using Writes.blockComment hb hwrites
      | lineComment body =>
        obtain ⟨rfl, hb⟩ := hs
        refine Writes.lineComment hb (fun c hc => ?_) hwrites
        exact bne_eq_false_iff_eq.1 (he c hc)
      | _ => cases ht
    · have ht : l.token.isTrivia = false := Bool.eq_false_iff.2 ht
      rw [meaningful_cons_of_not_isTrivia ht]
      refine .token ht hs ?_ (ih hrest fun hl => (Token.endsBefore_of_isWord hl).1 he)
      intro hb
      obtain ⟨c, text, rfl⟩ := List.exists_cons_of_ne_nil hs.ne_nil
      rw [← hs.isWordChar_head]
      exact hw hb c rfl

theorem Writes.head {afterWord : Bool} {ts : List Token} {cs : List Char}
    (h : Writes afterWord ts cs) :
    ∀ c ∈ cs.head?, c ≠ '>' ∧ (afterWord = true → isWordChar c = false) := by
  cases h with
  | nil => nofun
  | blank hc =>
    intro c hhead
    cases hhead
    refine ⟨?_, fun _ => isWordChar_of_isBlank hc⟩
    intro he
    subst he
    cases hc
  | blockComment =>
    intro c hhead
    cases hhead
    exact ⟨by decide, fun _ => by decide⟩
  | lineComment =>
    intro c hhead
    cases hhead
    exact ⟨by decide, fun _ => by decide⟩
  | token ht hs hw =>
    obtain ⟨c, text, rfl⟩ := List.exists_cons_of_ne_nil hs.ne_nil
    intro d hhead
    cases hhead
    exact ⟨hs.head_ne_angle, fun hb => hs.isWordChar_head.trans (hw hb)⟩

theorem Writes.endsBefore {t : Token} {ts : List Token} {cs : List Char}
    (h : Writes t.isWord ts cs) (ht : t.isTrivia = false) : t.EndsBefore cs := by
  by_cases hw : t.isWord = true
  · rw [Token.endsBefore_of_isWord hw]
    intro c hc
    exact (h.head c hc).2 hw
  · intro c hc
    obtain ⟨hangle, -⟩ := h.head c hc
    cases t with
    | arrow direction =>
      cases direction with
      | toSource => exact beq_eq_false_iff_ne.2 hangle
      | _ => rfl
    | contextMap => exact absurd rfl hw
    | contains => exact absurd rfl hw
    | identifier name => exact absurd rfl hw
    | lineComment body => cases ht
    | blanks => cases ht
    | _ => rfl

/-- One more blank in front of a text makes its first run of blanks longer, or is a run of its
own. -/
theorem Cuts.exists_cons_blank {offset : Nat} {c : Char} {cs : List Char} {ls : List Lexeme}
    (hc : isInlineBlank c = true) (h : Cuts (offset + byteLength [c]) cs ls) :
    ∃ ls', Cuts offset (c :: cs) ls' ∧ meaningful ls' = meaningful ls := by
  have hone : Token.Spelling .blanks [c] := by
    refine ⟨List.cons_ne_nil _ _, ?_⟩
    intro d hd
    cases hd
    · exact hc
    · contradiction
  by_cases hb : ∀ m ∈ ls.head?, m.token ≠ .blanks
  · refine ⟨_, Cuts.cons hone ((h.endsBefore_iff .blanks).2 hb) h, ?_⟩
    exact meaningful_cons_of_isTrivia rfl ls
  · cases ls with
    | nil => exact absurd nofun hb
    | cons m ls =>
      have hm : m.token = .blanks := by simpa using hb
      obtain ⟨taken, rest, rfl, hs, he, -, hrest⟩ := h
      rw [hm] at hs he
      have hs' : Token.Spelling .blanks (c :: taken) :=
        ⟨List.cons_ne_nil _ _, List.forall_mem_cons.2 ⟨hc, hs.2⟩⟩
      rw [Nat.add_assoc, ← byteLength_append] at hrest
      refine ⟨_, Cuts.cons hs' he hrest, ?_⟩
      rw [meaningful_cons_of_isTrivia rfl, meaningful_cons_of_isTrivia]
      rw [hm]
      rfl

theorem Writes.exists_cuts {afterWord : Bool} {ts : List Token} {cs : List Char}
    (h : Writes afterWord ts cs) (offset : Nat) :
    ∃ ls, Cuts offset cs ls ∧ (meaningful ls).map Lexeme.token = ts := by
  induction h generalizing offset with
  | nil => exact ⟨[], rfl, rfl⟩
  | @blank _ ts c cs hc _ ih =>
    obtain ⟨ls, hcuts, rfl⟩ := ih (offset + byteLength [c])
    by_cases hn : c = '\n'
    · subst hn
      have hs : Token.Spelling .newline ['\n'] := rfl
      refine ⟨_, Cuts.cons hs (fun _ _ => rfl) hcuts, ?_⟩
      rw [meaningful_cons_of_isTrivia rfl]
    · have hi : isInlineBlank c = true := Bool.and_eq_true_iff.2 ⟨hc, bne_iff_ne.2 hn⟩
      obtain ⟨ls', hcuts', hls⟩ := hcuts.exists_cons_blank hi
      exact ⟨ls', hcuts', by rw [hls]⟩
  | @blockComment _ ts body cs hb _ ih =>
    have hs : Token.Spelling (.blockComment (String.ofList body))
        ('/' :: '*' :: (body ++ ['*', '/'])) := by
      rw [Token.Spelling, String.toList_ofList]
      exact ⟨rfl, hb⟩
    obtain ⟨ls, hcuts, rfl⟩ := ih (offset + byteLength ('/' :: '*' :: (body ++ ['*', '/'])))
    have hcons := Cuts.cons hs (fun _ _ => rfl) hcuts
    rw [List.cons_append, List.cons_append, List.append_assoc] at hcons
    refine ⟨_, hcons, ?_⟩
    rw [meaningful_cons_of_isTrivia rfl]
  | @lineComment _ ts body cs hb hr _ ih =>
    have hs : Token.Spelling (.lineComment (String.ofList body)) ('/' :: '/' :: body) := by
      rw [Token.Spelling, String.toList_ofList]
      exact ⟨rfl, hb⟩
    obtain ⟨ls, hcuts, rfl⟩ := ih (offset + byteLength ('/' :: '/' :: body))
    refine ⟨_, Cuts.cons hs (fun c hc => bne_eq_false_iff_eq.2 (hr c hc)) hcuts, ?_⟩
    rw [meaningful_cons_of_isTrivia rfl]
  | @token _ t ts text cs ht hs _ hrest ih =>
    obtain ⟨ls, hcuts, rfl⟩ := ih (offset + byteLength text)
    have hcons := Cuts.cons hs (hrest.endsBefore ht) hcuts
    refine ⟨_, hcons, ?_⟩
    rw [meaningful_cons_of_not_isTrivia ht]
    rfl

theorem exists_scan_iff_writes {source : String} {ts : List Token} :
    (∃ ls, scan source = .ok ls ∧ (meaningful ls).map Lexeme.token = ts) ↔
      Writes false ts source.toList := by
  constructor
  · intro h
    obtain ⟨ls, hls, rfl⟩ := h
    exact (scan_eq_ok_iff_cuts.1 hls).writes nofun
  · intro h
    obtain ⟨ls, hcuts, hls⟩ := h.exists_cuts 0
    exact ⟨ls, scan_eq_ok_iff_cuts.2 hcuts, hls⟩

def Token.IsWritable (t : Token) : Prop :=
  t.isTrivia = false ∧ ∃ text, t.Spelling text

theorem Token.isWritable_identifier_iff {name : String} :
    (Token.identifier name).IsWritable ↔ IsIdentifier name := by
  constructor
  · intro h
    obtain ⟨-, text, -, h⟩ := h
    exact h
  · intro h
    exact ⟨rfl, name.toList, rfl, h⟩

theorem Writes.isWritable {afterWord : Bool} {ts : List Token} {cs : List Char}
    (h : Writes afterWord ts cs) : ∀ t ∈ ts, t.IsWritable := by
  induction h with
  | nil => nofun
  | blank _ _ ih => exact ih
  | blockComment _ _ ih => exact ih
  | lineComment _ _ _ ih => exact ih
  | token ht hs _ _ ih => exact List.forall_mem_cons.2 ⟨⟨ht, _, hs⟩, ih⟩

/-- Tokens that can be written one by one can be written in a row, with a blank before each. -/
theorem exists_writes (afterWord : Bool) {ts : List Token} (h : ∀ t ∈ ts, t.IsWritable) :
    ∃ cs, Writes afterWord ts cs := by
  induction ts generalizing afterWord with
  | nil => exact ⟨[], .nil⟩
  | cons t ts ih =>
    obtain ⟨⟨ht, text, hs⟩, hts⟩ := List.forall_mem_cons.1 h
    obtain ⟨cs, hcs⟩ := ih t.isWord hts
    have hblank : Text.isBlank ' ' = true := by decide
    exact ⟨' ' :: (text ++ cs), .blank hblank (.token ht hs nofun hcs)⟩

theorem exists_writes_iff {ts : List Token} :
    (∃ source : String, Writes false ts source.toList) ↔ ∀ t ∈ ts, t.IsWritable := by
  constructor
  · intro h
    obtain ⟨source, h⟩ := h
    exact h.isWritable
  · intro h
    obtain ⟨cs, hcs⟩ := exists_writes false h
    exact ⟨String.ofList cs, by rwa [String.toList_ofList]⟩

end ContextDiagram.Language
