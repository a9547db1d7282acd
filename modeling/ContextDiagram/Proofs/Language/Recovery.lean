import ContextDiagram.Proofs.Language.LongestToken
import ContextDiagram.Proofs.Source.Boundary

namespace ContextDiagram.Language

open Source

/-- A text that starts at a byte offset, divided from left to right: each piece is the longest token
where it stands, one character at which no token begins, or a comment without an end, which takes
all that is left. -/
def Divides : Nat → List Char → List Piece → Prop
  | _, cs, [] => cs = []
  | offset, cs, .lexeme l :: ps => ∃ taken rest, cs = taken ++ rest ∧
      l.token.IsLongestIn taken cs ∧ l.span = .between offset (offset + byteLength taken) ∧
      Divides (offset + byteLength taken) rest ps
  | offset, cs, .unexpectedCharacter place :: ps => ∃ c rest, cs = c :: rest ∧
      BeginsNoToken cs ∧ ¬IsUnclosedComment cs ∧ place = offset ∧
      Divides (offset + c.utf8Size) rest ps
  | offset, cs, .unclosedComment span :: ps =>
    IsUnclosedComment cs ∧ span = .between offset (offset + byteLength cs) ∧ ps = []

def Piece.start : Piece → Nat
  | lexeme l => l.span.start
  | unexpectedCharacter offset => offset
  | unclosedComment span => span.start

/-- Whether a message is about a piece that is no token, and says where it stands. -/
def Piece.IsReportedBy : Piece → Diagnostic → Prop
  | lexeme _, _ => False
  | unexpectedCharacter offset, d =>
    d.code = some .unexpectedCharacter ∧ d.labels.map (fun label => label.span.start) = [offset]
  | unclosedComment span, d =>
    d.code = some .unclosedComment ∧ d.labels.map Label.span = [span]

variable {offset : Nat} {cs : List Char} {ps : List Piece}

theorem pieces_of_nothing {c : Char} (h : beginning (c :: cs) = .nothing) :
    pieces offset (c :: cs) = .unexpectedCharacter offset :: pieces (offset + c.utf8Size) cs := by
  rw [pieces]
  split
  · next ht => cases h.symm.trans ht
  · next ht => cases h.symm.trans ht
  · rfl

theorem pieces_of_unclosedComment (h : beginning cs = .unclosedComment) :
    pieces offset cs = [.unclosedComment (.between offset (offset + byteLength cs))] := by
  cases cs with
  | nil => cases h
  | cons c cs =>
    rw [pieces]
    split
    · next ht => cases h.symm.trans ht
    · rfl
    · next ht => cases h.symm.trans ht

theorem divides_pieces (offset : Nat) (cs : List Char) : Divides offset cs (pieces offset cs) := by
  fun_induction pieces offset cs with
  | case1 => rfl
  | case2 offset c cs token taken rest hb stop ih =>
    exact ⟨taken, rest, beginning_eq_append hb, isLongestIn_of_beginning hb, rfl, ih⟩
  | case3 offset c cs hb => exact ⟨beginning_eq_unclosedComment_iff.1 hb, rfl, rfl⟩
  | case4 offset c cs hb ih =>
    obtain ⟨hnone, hopen⟩ := beginning_eq_nothing_iff.1 hb
    exact ⟨c, cs, rfl, hnone, hopen, rfl, ih⟩

theorem Divides.eq_pieces (h : Divides offset cs ps) : ps = pieces offset cs := by
  induction ps generalizing offset cs with
  | nil =>
    obtain rfl : cs = [] := h
    rw [pieces]
  | cons p ps ih =>
    cases p with
    | lexeme l =>
      obtain ⟨taken, rest, rfl, hlongest, hspan, hrest⟩ := h
      have hb := beginning_append_eq_token_iff.2 hlongest
      obtain ⟨hs, he⟩ := spelling_of_beginning hb
      rw [pieces_append hs he, ← hspan, ← ih hrest]
    | unexpectedCharacter place =>
      obtain ⟨c, rest, rfl, hnone, hopen, rfl, hrest⟩ := h
      rw [pieces_of_nothing (beginning_eq_nothing_iff.2 ⟨hnone, hopen⟩), ← ih hrest]
    | unclosedComment span =>
      obtain ⟨hopen, rfl, rfl⟩ := h
      rw [pieces_of_unclosedComment (beginning_eq_unclosedComment_iff.2 hopen)]

theorem Divides.le_start (h : Divides offset cs ps) : ∀ p ∈ ps, offset ≤ p.start := by
  induction ps generalizing offset cs with
  | nil => nofun
  | cons p ps ih =>
    cases p with
    | lexeme l =>
      obtain ⟨taken, rest, -, -, hspan, hrest⟩ := h
      obtain ⟨hstart, -⟩ := Span.eq_between_add_iff.1 hspan
      refine List.forall_mem_cons.2 ⟨hstart.ge, ?_⟩
      intro q hq
      exact (Nat.le_add_right _ _).trans (ih hrest q hq)
    | unexpectedCharacter place =>
      obtain ⟨c, rest, -, -, -, rfl, hrest⟩ := h
      refine List.forall_mem_cons.2 ⟨Nat.le_refl _, ?_⟩
      intro q hq
      exact (Nat.le_add_right _ _).trans (ih hrest q hq)
    | unclosedComment span =>
      obtain ⟨-, rfl, rfl⟩ := h
      exact List.forall_mem_singleton.2 (Nat.le_refl _)

/-- No piece is empty, so each one starts behind those before it. -/
theorem Divides.pairwise_start (h : Divides offset cs ps) :
    ps.Pairwise fun p q => p.start < q.start := by
  induction ps generalizing offset cs with
  | nil => exact .nil
  | cons p ps ih =>
    cases p with
    | lexeme l =>
      obtain ⟨taken, rest, -, hlongest, hspan, hrest⟩ := h
      obtain ⟨hstart, -⟩ := Span.eq_between_add_iff.1 hspan
      have hpos := byteLength_pos hlongest.spelling.ne_nil
      refine List.pairwise_cons.2 ⟨?_, ih hrest⟩
      intro q hq
      have hle := hrest.le_start q hq
      change l.span.start < q.start
      omega
    | unexpectedCharacter place =>
      obtain ⟨c, rest, -, -, -, rfl, hrest⟩ := h
      have hpos := c.utf8Size_pos
      refine List.pairwise_cons.2 ⟨?_, ih hrest⟩
      intro q hq
      have hle := hrest.le_start q hq
      change place < q.start
      omega
    | unclosedComment span =>
      obtain ⟨-, -, rfl⟩ := h
      exact List.pairwise_singleton _ _

theorem Divides.unclosedComment {before after : List Piece} {span : Span}
    (h : Divides offset cs (before ++ .unclosedComment span :: after)) :
    after = [] ∧ span.stop = offset + byteLength cs := by
  induction before generalizing offset cs with
  | nil =>
    obtain ⟨-, rfl, hafter⟩ := h
    exact ⟨hafter, Span.stop_between_add _ _⟩
  | cons p before ih =>
    cases p with
    | lexeme l =>
      obtain ⟨taken, rest, rfl, -, -, hrest⟩ := h
      rw [byteLength_append, ← Nat.add_assoc]
      exact ih hrest
    | unexpectedCharacter place =>
      obtain ⟨c, rest, rfl, -, -, -, hrest⟩ := h
      rw [byteLength_cons, ← Nat.add_assoc]
      exact ih hrest
    | unclosedComment span => cases before <;> cases h.2.2

theorem Piece.isReportedBy_of_diagnostic? {p : Piece} {d : Diagnostic}
    (h : p.diagnostic? = some d) : p.IsReportedBy d := by
  cases p with
  | lexeme l => cases h
  | unexpectedCharacter offset =>
    cases h
    exact ⟨rfl, rfl⟩
  | unclosedComment span =>
    cases h
    exact ⟨rfl, rfl⟩

theorem forall₂_isReportedBy (ps : List Piece) :
    List.Forall₂ Piece.IsReportedBy (ps.filter fun p => p.lexeme?.isNone)
      (ps.filterMap Piece.diagnostic?) := by
  induction ps with
  | nil => exact .nil
  | cons p ps ih =>
    cases p with
    | lexeme l => exact ih
    | unexpectedCharacter offset => exact .cons (Piece.isReportedBy_of_diagnostic? rfl) ih
    | unclosedComment span => exact .cons (Piece.isReportedBy_of_diagnostic? rfl) ih

theorem Piece.IsReportedBy.label_start {p : Piece} {d : Diagnostic} (h : p.IsReportedBy d) :
    ∀ label ∈ d.labels, label.span.start = p.start := by
  intro label hlabel
  cases p with
  | lexeme l => exact h.elim
  | unexpectedCharacter offset =>
    have hstart := List.mem_map_of_mem (f := fun label : Label => label.span.start) hlabel
    rw [h.2] at hstart
    exact List.mem_singleton.1 hstart
  | unclosedComment span =>
    have hspan := List.mem_map_of_mem (f := Label.span) hlabel
    rw [h.2] at hspan
    rw [List.mem_singleton.1 hspan]
    rfl

theorem Divides.pairwise_labels (h : Divides offset cs ps) :
    (ps.filterMap Piece.diagnostic?).Pairwise fun d e =>
      ∀ a ∈ d.labels, ∀ b ∈ e.labels, a.span.start < b.span.start := by
  rw [List.pairwise_filterMap]
  apply h.pairwise_start.imp
  intro p q hlt d hd e he a ha b hb
  rw [(Piece.isReportedBy_of_diagnostic? hd).label_start a ha,
    (Piece.isReportedBy_of_diagnostic? he).label_start b hb]
  exact hlt

theorem Divides.eq_nil_of_unclosedComment (h : Divides offset cs ps)
    {before after : List Diagnostic} {d : Diagnostic}
    (hd : ps.filterMap Piece.diagnostic? = before ++ d :: after)
    (hcode : d.code = some .unclosedComment) : after = [] := by
  obtain ⟨front, back, rfl, -, hback⟩ := List.filterMap_eq_append_iff.1 hd
  obtain ⟨tokens, p, rest, rfl, -, hp, hrest⟩ := List.filterMap_eq_cons_iff.1 hback
  cases p with
  | lexeme l => cases hp
  | unexpectedCharacter offset =>
    cases hp
    cases hcode
  | unclosedComment span =>
    rw [← List.append_assoc] at h
    obtain ⟨rfl, -⟩ := h.unclosedComment
    exact hrest.symm

/-- A source text has exactly one division into longest tokens, characters at which no token begins
and at most one unclosed comment, and a scan finds it. Every piece that is no token has one message,
which starts where it does; the messages stand in the order of the text, one about an unclosed
comment behind all others. A scan fails, with all messages, exactly if there is one. -/
theorem scan_divides_source (source : String) :
    ∃ parts tokens diagnostics, (∀ ps, Divides 0 source.toList ps ↔ ps = parts) ∧
      parts.filterMap Piece.lexeme? = tokens ∧ parts.filterMap Piece.diagnostic? = diagnostics ∧
      List.Forall₂ Piece.IsReportedBy (parts.filter fun p => p.lexeme?.isNone) diagnostics ∧
      (∀ span, .unclosedComment span ∈ parts → span.stop = source.utf8ByteSize) ∧
      (diagnostics.Pairwise fun d e =>
        ∀ a ∈ d.labels, ∀ b ∈ e.labels, a.span.start < b.span.start) ∧
      (∀ before d after, diagnostics = before ++ d :: after →
        d.code = some .unclosedComment → after = []) ∧
      scan source = if diagnostics = [] then .ok tokens else .error diagnostics := by
  have hparts : Divides 0 source.toList (pieces 0 source.toList) := divides_pieces 0 source.toList
  refine ⟨pieces 0 source.toList, _, _, ?_, rfl, rfl, forall₂_isReportedBy _, ?_,
    hparts.pairwise_labels, ?_, ?_⟩
  · intro ps
    constructor
    · exact Divides.eq_pieces
    · intro he
      rw [he]
      exact hparts
  · intro span hspan
    obtain ⟨before, after, he⟩ := List.append_of_mem hspan
    rw [he] at hparts
    rw [hparts.unclosedComment.2, Nat.zero_add, byteLength_toList]
  · intro before d after hd hcode
    exact hparts.eq_nil_of_unclosedComment hd hcode
  · rw [scan]
    split
    · next hnone => exact (if_pos hnone).symm
    · next hsome => exact (if_neg hsome).symm

end ContextDiagram.Language
