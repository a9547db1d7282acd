import ContextDiagram.Proofs.Language.Spelling
import ContextDiagram.Proofs.Source.Slice
import Mathlib.Data.List.Chain
import Mathlib.Data.List.Nodup

namespace ContextDiagram.Language

open Source

namespace Token

variable {t u : Token} {c : Char} {cs : List Char}

theorem Spelling.ne_nil (h : t.Spelling cs) : cs ≠ [] := by
  intro he
  subst he
  cases t with
  | identifier name => exact (h.isWord rfl).elim
  | arrow direction => cases direction <;> cases h
  | blockComment body => cases h.1
  | lineComment body => cases h.1
  | blanks => exact h.1 rfl
  | _ => cases h

def signs : List Char :=
  ['-', '<', '{', '}', '[', ']', ',', '/']

theorem Spelling.head_cases (h : u.Spelling (c :: cs)) :
    (u.isWord = true ∧ isWordChar c = true) ∨ (u = blanks ∧ isInlineBlank c = true) ∨
      (u = newline ∧ c = '\n') ∨
        (u.isWord = false ∧ u ≠ blanks ∧ u ≠ newline ∧ c ∈ signs) := by
  cases u with
  | contextMap => exact .inl ⟨rfl, (h.isWord rfl).all_isWordChar c List.mem_cons_self⟩
  | contains => exact .inl ⟨rfl, (h.isWord rfl).all_isWordChar c List.mem_cons_self⟩
  | identifier name => exact .inl ⟨rfl, (h.isWord rfl).all_isWordChar c List.mem_cons_self⟩
  | blanks => exact .inr (.inl ⟨rfl, h.2 c List.mem_cons_self⟩)
  | newline =>
    cases h
    exact .inr (.inr (.inl ⟨rfl, rfl⟩))
  | arrow direction =>
    have hc : c ∈ signs := by cases direction <;> cases h <;> decide
    exact .inr (.inr (.inr ⟨rfl, nofun, nofun, hc⟩))
  | blockComment body =>
    obtain ⟨rfl, -⟩ := List.cons.inj h.1
    exact .inr (.inr (.inr ⟨rfl, nofun, nofun, by decide⟩))
  | lineComment body =>
    obtain ⟨rfl, -⟩ := List.cons.inj h.1
    exact .inr (.inr (.inr ⟨rfl, nofun, nofun, by decide⟩))
  | _ =>
    cases h
    exact .inr (.inr (.inr ⟨rfl, nofun, nofun, by decide⟩))

theorem isWordChar_of_mem_signs (h : c ∈ signs) : isWordChar c = false :=
  Bool.eq_false_iff.2 (List.any_eq_false.1 rfl c h)

theorem isInlineBlank_of_mem_signs (h : c ∈ signs) : isInlineBlank c = false :=
  Bool.eq_false_iff.2 (List.any_eq_false.1 rfl c h)

theorem ne_newline_of_mem_signs (h : c ∈ signs) : c ≠ '\n' := by
  intro he
  subst he
  revert h
  decide

theorem Spelling.isWordChar_head (h : u.Spelling (c :: cs)) : isWordChar c = u.isWord := by
  rcases h.head_cases with ⟨hu, hc⟩ | ⟨rfl, hc⟩ | ⟨rfl, rfl⟩ | ⟨hu, -, -, hc⟩
  · rw [hu, hc]
  · exact isWordChar_of_isBlank (isBlank_of_isInlineBlank hc)
  · decide
  · rw [hu, isWordChar_of_mem_signs hc]

theorem Spelling.isInlineBlank_head (h : u.Spelling (c :: cs)) :
    isInlineBlank c = false ↔ u ≠ blanks := by
  rcases h.head_cases with ⟨hu, hc⟩ | ⟨rfl, hc⟩ | ⟨rfl, rfl⟩ | ⟨-, hu, -, hc⟩
  · have hne : u ≠ blanks := by
      intro he
      subst he
      cases hu
    exact iff_of_true (isInlineBlank_of_isWordChar hc) hne
  · rw [hc]
    exact iff_of_false nofun fun hne => hne rfl
  · exact iff_of_true (by decide) nofun
  · exact iff_of_true (isInlineBlank_of_mem_signs hc) hu

theorem Spelling.head_eq_newline (h : u.Spelling (c :: cs)) : c = '\n' ↔ u = newline := by
  rcases h.head_cases with ⟨hu, hc⟩ | ⟨rfl, hc⟩ | ⟨rfl, rfl⟩ | ⟨-, -, hu, hc⟩
  · refine iff_of_false ?_ ?_
    · intro he
      subst he
      cases hc
    · intro he
      subst he
      cases hu
  · refine iff_of_false ?_ nofun
    intro he
    subst he
    cases hc
  · exact iff_of_true rfl rfl
  · exact iff_of_false (ne_newline_of_mem_signs hc) hu

theorem Spelling.head_ne_angle (h : u.Spelling (c :: cs)) : c ≠ '>' := by
  intro he
  subst he
  rcases h.head_cases with ⟨-, hc⟩ | ⟨-, hc⟩ | ⟨-, hc⟩ | ⟨-, -, -, hc⟩ <;> revert hc <;> decide

/-- Which token may stand directly behind another: two words, or two runs of blanks, would be one,
and a line comment goes on to the end of its line. -/
def MayPrecede : Token → Token → Prop
  | contextMap, u | contains, u | identifier _, u => u.isWord = false
  | lineComment _, u => u = newline
  | blanks, u => u ≠ blanks
  | _, _ => True

theorem endsBefore_append_iff (h : u.Spelling cs) (rest : List Char) :
    t.EndsBefore (cs ++ rest) ↔ t.MayPrecede u := by
  obtain ⟨c, cs, rfl⟩ := List.exists_cons_of_ne_nil h.ne_nil
  have hend : t.EndsBefore (c :: cs ++ rest) ↔ t.goesOn c = false := by
    simp only [EndsBefore, List.cons_append, List.head?_cons, Option.mem_some_iff, forall_eq']
  rw [hend]
  have hword : isWordChar c = false ↔ u.isWord = false := by rw [h.isWordChar_head]
  cases t with
  | contextMap => exact hword
  | contains => exact hword
  | identifier name => exact hword
  | arrow direction =>
    cases direction with
    | toSource => exact iff_of_true (beq_eq_false_iff_ne.2 h.head_ne_angle) True.intro
    | _ => exact iff_of_true rfl True.intro
  | lineComment body =>
    rw [goesOn, bne_eq_false_iff_eq, h.head_eq_newline, MayPrecede]
  | blanks => exact h.isInlineBlank_head
  | _ => exact iff_of_true rfl True.intro

end Token

def Cuts : Nat → List Char → List Lexeme → Prop
  | _, cs, [] => cs = []
  | offset, cs, l :: ls => ∃ taken rest, cs = taken ++ rest ∧ l.token.Spelling taken ∧
      l.token.EndsBefore rest ∧ l.span = .between offset (offset + byteLength taken) ∧
      Cuts (offset + byteLength taken) rest ls

theorem Cuts.cons {t : Token} {offset : Nat} {taken rest : List Char} {ls : List Lexeme}
    (hs : t.Spelling taken) (he : t.EndsBefore rest)
    (h : Cuts (offset + byteLength taken) rest ls) :
    Cuts offset (taken ++ rest) (⟨t, .between offset (offset + byteLength taken)⟩ :: ls) :=
  ⟨taken, rest, rfl, hs, he, rfl, h⟩

theorem pieces_append {t : Token} {taken rest : List Char} (hs : t.Spelling taken)
    (he : t.EndsBefore rest) (offset : Nat) :
    pieces offset (taken ++ rest) =
      .lexeme ⟨t, .between offset (offset + byteLength taken)⟩ ::
        pieces (offset + byteLength taken) rest := by
  have hb := beginning_append hs he
  obtain ⟨c, cs, rfl⟩ := List.exists_cons_of_ne_nil hs.ne_nil
  rw [List.cons_append] at hb ⊢
  rw [pieces]
  split
  · next ht =>
    rw [hb] at ht
    cases ht
    rfl
  · next ht =>
    rw [hb] at ht
    cases ht
  · next ht =>
    rw [hb] at ht
    cases ht

theorem of_pieces_eq_lexeme_cons {offset : Nat} {cs : List Char} {l : Lexeme} {ps : List Piece}
    (h : pieces offset cs = .lexeme l :: ps) :
    ∃ taken rest, cs = taken ++ rest ∧ l.token.Spelling taken ∧ l.token.EndsBefore rest ∧
      l.span = .between offset (offset + byteLength taken) ∧
      pieces (offset + byteLength taken) rest = ps := by
  cases cs with
  | nil =>
    rw [pieces] at h
    cases h
  | cons c cs =>
    rw [pieces] at h
    split at h
    · next hb =>
      cases h
      obtain ⟨hcs, hs, he⟩ := beginning_eq_token_iff.1 hb
      exact ⟨_, _, hcs, hs, he, rfl, rfl⟩
    · cases h
    · cases h

theorem pieces_eq_map_lexeme_iff {offset : Nat} {cs : List Char} {ls : List Lexeme} :
    pieces offset cs = ls.map Piece.lexeme ↔ Cuts offset cs ls := by
  induction ls generalizing offset cs with
  | nil =>
    cases cs with
    | nil => simp [pieces, Cuts]
    | cons c cs =>
      rw [pieces]
      split <;> simp [Cuts]
  | cons l ls ih =>
    constructor
    · intro h
      obtain ⟨taken, rest, hcs, hs, he, hspan, hrest⟩ := of_pieces_eq_lexeme_cons h
      exact ⟨taken, rest, hcs, hs, he, hspan, ih.1 hrest⟩
    · intro h
      obtain ⟨taken, rest, rfl, hs, he, hspan, hrest⟩ := h
      rw [pieces_append hs he, ih.2 hrest, ← hspan]
      rfl

theorem eq_map_lexeme_iff {ps : List Piece} {ls : List Lexeme} :
    ps = ls.map Piece.lexeme ↔
      ps.filterMap Piece.diagnostic? = [] ∧ ps.filterMap Piece.lexeme? = ls := by
  induction ps generalizing ls with
  | nil => simp [eq_comm]
  | cons p ps ih =>
    simp only [List.filterMap_cons]
    cases p with
    | lexeme l =>
      simp only [Piece.diagnostic?, Piece.lexeme?]
      cases ls with
      | nil => simp
      | cons m ls =>
        simp only [List.map_cons, List.cons.injEq, Piece.lexeme.injEq, ih]
        tauto
    | unexpectedCharacter offset => cases ls <;> simp [Piece.diagnostic?]
    | unclosedComment span => cases ls <;> simp [Piece.diagnostic?]

theorem scan_eq_ok_iff_cuts {source : String} {ls : List Lexeme} :
    scan source = .ok ls ↔ Cuts 0 source.toList ls := by
  rw [← pieces_eq_map_lexeme_iff, eq_map_lexeme_iff, scan]
  split
  · next h => rw [Except.ok.injEq, h, and_iff_right rfl]
  · next h => exact iff_of_false nofun fun hs => h hs.1

/-- The ranges of lexemes, none of them empty, lead from one offset to another without a gap. -/
def Tiles : Nat → Nat → List Lexeme → Prop
  | start, stop, [] => start = stop
  | start, stop, l :: ls =>
    l.span.start = start ∧ l.span.start < l.span.stop ∧ Tiles l.span.stop stop ls

theorem Tiles.le_start {start stop : Nat} {ls : List Lexeme} (h : Tiles start stop ls) :
    ∀ l ∈ ls, start ≤ l.span.start := by
  induction ls generalizing start with
  | nil => nofun
  | cons l ls ih =>
    obtain ⟨hstart, hlt, htiles⟩ := h
    refine List.forall_mem_cons.2 ⟨hstart.ge, ?_⟩
    intro m hm
    have hle := ih htiles m hm
    omega

theorem Tiles.start_lt_stop {start stop : Nat} {ls : List Lexeme} (h : Tiles start stop ls) :
    ∀ l ∈ ls, l.span.start < l.span.stop := by
  induction ls generalizing start with
  | nil => nofun
  | cons l ls ih =>
    obtain ⟨-, hlt, htiles⟩ := h
    exact List.forall_mem_cons.2 ⟨hlt, ih htiles⟩

def Lexeme.Precedes (l m : Lexeme) : Prop :=
  l.span.start < m.span.start ∧ l.span.stop ≤ m.span.start

theorem Tiles.pairwise_precedes {start stop : Nat} {ls : List Lexeme} (h : Tiles start stop ls) :
    ls.Pairwise Lexeme.Precedes := by
  induction ls generalizing start with
  | nil => exact .nil
  | cons l ls ih =>
    obtain ⟨-, hlt, htiles⟩ := h
    refine List.pairwise_cons.2 ⟨?_, ih htiles⟩
    intro m hm
    have hle := htiles.le_start m hm
    exact ⟨hlt.trans_le hle, hle⟩

theorem Tiles.pairwise_start {start stop : Nat} {ls : List Lexeme} (h : Tiles start stop ls) :
    ls.Pairwise fun l m => l.span.start < m.span.start :=
  h.pairwise_precedes.imp And.left

theorem Tiles.nodup {start stop : Nat} {ls : List Lexeme} (h : Tiles start stop ls) :
    (ls.map Lexeme.span).Nodup := by
  rw [List.Nodup, List.pairwise_map]
  apply h.pairwise_start.imp
  intro l m hlt he
  rw [he] at hlt
  exact Nat.lt_irrefl _ hlt

theorem Tiles.stop_of_getLast? {start stop : Nat} {ls : List Lexeme} {last : Lexeme}
    (h : Tiles start stop ls) (hlast : ls.getLast? = some last) :
    last.span.stop = stop ∧ ∀ l ∈ ls, l.span.start < stop := by
  induction ls generalizing start with
  | nil => cases hlast
  | cons l ls ih =>
    obtain ⟨-, hlt, htiles⟩ := h
    cases ls with
    | nil =>
      cases hlast
      obtain rfl : l.span.stop = stop := htiles
      exact ⟨rfl, List.forall_mem_singleton.2 hlt⟩
    | cons m ls =>
      rw [List.getLast?_cons_cons] at hlast
      obtain ⟨hstop, hstarts⟩ := ih htiles hlast
      have hle := htiles.le_start m List.mem_cons_self
      refine ⟨hstop, List.forall_mem_cons.2 ⟨?_, hstarts⟩⟩
      have hm := hstarts m List.mem_cons_self
      omega

def Lexeme.IsWrittenIn (cs : List Char) (l : Lexeme) : Prop :=
  ∃ text, l.span.slice? cs = some text ∧ l.token.Spelling text

theorem Cuts.endsBefore_iff {offset : Nat} {cs : List Char} {ls : List Lexeme}
    (h : Cuts offset cs ls) (t : Token) :
    t.EndsBefore cs ↔ ∀ m ∈ ls.head?, t.MayPrecede m.token := by
  cases ls with
  | nil =>
    obtain rfl : cs = [] := h
    exact iff_of_true nofun nofun
  | cons m ls =>
    obtain ⟨taken, rest, rfl, hs, -⟩ := h
    rw [Token.endsBefore_append_iff hs, List.head?_cons]
    simp only [Option.mem_some_iff, forall_eq']

theorem Cuts.tiles {offset : Nat} {cs : List Char} {ls : List Lexeme} (h : Cuts offset cs ls) :
    Tiles offset (offset + byteLength cs) ls := by
  induction ls generalizing offset cs with
  | nil =>
    obtain rfl : cs = [] := h
    rfl
  | cons l ls ih =>
    obtain ⟨taken, rest, rfl, hs, -, hspan, hrest⟩ := h
    obtain ⟨hstart, hstop⟩ := Span.eq_between_add_iff.1 hspan
    have hpos := byteLength_pos hs.ne_nil
    refine ⟨hstart, by omega, ?_⟩
    rw [hstop, byteLength_append, ← Nat.add_assoc]
    exact ih hrest

theorem Cuts.isWrittenIn (before : List Char) {cs : List Char} {ls : List Lexeme}
    (h : Cuts (byteLength before) cs ls) : ∀ l ∈ ls, l.IsWrittenIn (before ++ cs) := by
  induction ls generalizing before cs with
  | nil => nofun
  | cons l ls ih =>
    obtain ⟨taken, rest, rfl, hs, -, hspan, hrest⟩ := h
    obtain ⟨hstart, hstop⟩ := Span.eq_between_add_iff.1 hspan
    rw [← byteLength_append] at hrest
    refine List.forall_mem_cons.2 ⟨⟨taken, ?_, hs⟩, ?_⟩
    · exact Span.slice?_eq_some_iff.2 ⟨before, rest, rfl, hstart.symm, hstart ▸ hstop.symm⟩
    · rw [← List.append_assoc]
      exact ih _ hrest

theorem Cuts.isChain {offset : Nat} {cs : List Char} {ls : List Lexeme} (h : Cuts offset cs ls) :
    ls.IsChain fun l m => l.token.MayPrecede m.token := by
  induction ls generalizing offset cs with
  | nil => exact List.isChain_nil
  | cons l ls ih =>
    obtain ⟨taken, rest, rfl, -, he, -, hrest⟩ := h
    exact List.isChain_cons.2 ⟨(hrest.endsBefore_iff l.token).1 he, ih hrest⟩

theorem cuts_of_tiles (before : List Char) {cs : List Char} {ls : List Lexeme}
    (ht : Tiles (byteLength before) (byteLength (before ++ cs)) ls)
    (hw : ∀ l ∈ ls, l.IsWrittenIn (before ++ cs))
    (hc : ls.IsChain fun l m => l.token.MayPrecede m.token) : Cuts (byteLength before) cs ls := by
  induction ls generalizing before cs with
  | nil =>
    have hb : byteLength before = byteLength (before ++ cs) := ht
    rw [byteLength_append] at hb
    exact eq_nil_of_byteLength (by omega)
  | cons l ls ih =>
    obtain ⟨hstart, -, htiles⟩ := ht
    obtain ⟨⟨text, hslice, hs⟩, hw⟩ := List.forall_mem_cons.1 hw
    obtain ⟨hhead, hc⟩ := List.isChain_cons.1 hc
    obtain ⟨before', after, hsource, hlength, hstop⟩ := Span.slice?_eq_some_iff.1 hslice
    obtain ⟨rfl, rfl⟩ := append_inj_of_byteLength_eq hsource (hlength.trans hstart).symm
    rw [hstart] at hstop
    rw [← hstop, ← byteLength_append, ← List.append_assoc] at htiles
    rw [← List.append_assoc] at hw
    have hrest := ih _ htiles hw hc
    rw [byteLength_append] at hrest
    refine ⟨text, after, rfl, hs, (hrest.endsBefore_iff l.token).2 hhead, ?_, hrest⟩
    exact Span.eq_between_add_iff.2 ⟨hstart, hstop.symm⟩

/-- A source text scans to the lexemes whose ranges tile it, each written under its range, if none
of them could be longer, and to no others. -/
theorem scan_eq_ok_iff {source : String} {ls : List Lexeme} :
    scan source = .ok ls ↔
      Tiles 0 source.utf8ByteSize ls ∧
      (∀ l ∈ ls, l.IsWrittenIn source.toList) ∧
      ls.IsChain fun l m => l.token.MayPrecede m.token := by
  rw [scan_eq_ok_iff_cuts]
  constructor
  · intro h
    have ht := h.tiles
    rw [byteLength_toList, Nat.zero_add] at ht
    exact ⟨ht, Cuts.isWrittenIn [] h, h.isChain⟩
  · intro h
    obtain ⟨ht, hw, hc⟩ := h
    rw [← byteLength_toList] at ht
    exact cuts_of_tiles [] ht hw hc

end ContextDiagram.Language
