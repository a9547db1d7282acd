import ContextDiagram.Failure
import ContextDiagram.Proofs.Language.Alignment
import ContextDiagram.Proofs.Language.Reading
import ContextDiagram.Proofs.Source.Boundary

namespace ContextDiagram.Language

open Source

/-- All messages about a source text: its faults, or the warnings about its map. -/
def messages (source : String) : List Diagnostic :=
  match read source with
  | .ok reading => reading.warnings
  | .error diagnostics => diagnostics

/-- Whether a label of a message points at text in the way that the messages of its kind do. -/
def PointsAtText (cs : List Char) (d : Diagnostic) (s : Span) : Prop :=
  if d.code = some .unexpectedCharacter then ∃ c, s.IsFirstByteOf c cs else s.IsWholeIn cs

/-- Whether a piece stands where it says: over whole characters of a text, or at the start of
one. -/
def Piece.IsPartOf (cs : List Char) : Piece → Prop
  | lexeme l => l.span.IsWholeIn cs
  | unexpectedCharacter offset =>
    ∃ before c after, cs = before ++ c :: after ∧ byteLength before = offset
  | unclosedComment span => span.IsWholeIn cs

section

variable {cs : List Char}

theorem isPartOf_of_mem_pieces (before : List Char) :
    ∀ p ∈ pieces (byteLength before) cs, p.IsPartOf (before ++ cs) := by
  generalize hoffset : byteLength before = offset
  fun_induction pieces offset cs generalizing before with
  | case1 => nofun
  | case2 offset c cs token taken rest hb stop ih =>
    subst hoffset
    rw [beginning_eq_append hb]
    refine List.forall_mem_cons.2 ⟨Span.isWholeIn_between before taken rest, ?_⟩
    rw [← List.append_assoc]
    apply ih
    rw [byteLength_append]
  | case3 offset c cs hb =>
    subst hoffset
    refine List.forall_mem_singleton.2 ?_
    have hwhole := Span.isWholeIn_between before (c :: cs) []
    rwa [List.append_nil] at hwhole
  | case4 offset c cs hb ih =>
    subst hoffset
    refine List.forall_mem_cons.2 ⟨⟨before, c, cs, rfl, rfl⟩, ?_⟩
    have hlength : byteLength (before ++ [c]) = byteLength before + c.utf8Size := by
      rw [byteLength_append, byteLength_cons, byteLength, Nat.add_zero]
    have hrest := ih (before ++ [c]) hlength
    rwa [List.append_assoc] at hrest

theorem Piece.IsPartOf.pointsAtText {p : Piece} (hp : p.IsPartOf cs) {d : Diagnostic}
    (hd : p.diagnostic? = some d) : ∀ label ∈ d.labels, PointsAtText cs d label.span := by
  cases p with
  | lexeme l => cases hd
  | unexpectedCharacter offset =>
    cases hd
    obtain ⟨before, c, after, rfl, hb⟩ := hp
    refine List.forall_mem_singleton.2 ?_
    rw [PointsAtText, if_pos rfl]
    exact ⟨c, before, after, rfl, hb.symm, Span.stop_between_add offset 1⟩
  | unclosedComment span =>
    cases hd
    refine List.forall_mem_singleton.2 ?_
    rw [PointsAtText, if_neg (by nofun)]
    exact hp

end

section

variable {source : String} {ls : List Lexeme}

theorem isWholeIn_of_mem_scan (h : scan source = .ok ls) :
    ∀ l ∈ ls, l.span.IsWholeIn source.toList := by
  intro l hl
  obtain ⟨text, hslice, -⟩ := Cuts.isWrittenIn [] (scan_eq_ok_iff_cuts.1 h) l hl
  exact Span.exists_slice?_iff.1 ⟨text, hslice⟩

theorem pointsAtText_of_scan_error {diagnostics : List Diagnostic}
    (h : scan source = .error diagnostics) :
    ∀ d ∈ diagnostics, ∀ label ∈ d.labels, PointsAtText source.toList d label.span := by
  have hdiagnostics : (pieces 0 source.toList).filterMap Piece.diagnostic? = diagnostics := by
    rw [scan] at h
    split at h
    · cases h
    · cases h
      rfl
  subst hdiagnostics
  intro d hd
  obtain ⟨p, hp, hpd⟩ := List.mem_filterMap.1 hd
  exact (isPartOf_of_mem_pieces [] p hp).pointsAtText hpd

theorem isWholeIn_endOfInput {cs : List Char} (h : ∀ l ∈ ls, l.span.IsWholeIn cs) :
    (endOfInput ls).IsWholeIn cs := by
  cases hlast : ls.getLast? with
  | none =>
    rw [endOfInput, hlast]
    exact Span.isWholeIn_emptyAt isBoundary_zero
  | some last =>
    rw [endOfInput, hlast]
    exact Span.isWholeIn_emptyAt (h last (List.mem_of_getLast? hlast)).2

/-- The labels about a fault of the grammar point at tokens or at the end of the input. This is the
case of alignment in which the tokens stand where they stand. -/
theorem isWholeIn_of_ofLexemes_error {cs : List Char} (h : ∀ l ∈ ls, l.span.IsWholeIn cs)
    {fault : Fault} (hf : Document.ofLexemes ls = .error fault) :
    ∀ label ∈ (fault.diagnostic ls).labels, label.span.IsWholeIn cs := by
  have haligned : Aligned (fun s _ => s.IsWholeIn cs) (meaningful ls) (meaningful ls) := by
    apply aligned_of_map_token_eq rfl
    intro k l l' hl _
    exact h l (List.mem_filter.1 (List.mem_of_getElem? hl)).1
  have hagree := agree_ofLexemes_of_aligned haligned
  rw [hf] at hagree
  cases hagree with
  | error hmessage =>
    intro label hlabel
    obtain ⟨-, -, hspan⟩ := List.forall₂_same.1 hmessage.labels label hlabel
    rcases hspan with hspan | ⟨hspan, -⟩
    · exact hspan
    · rw [hspan]
      exact isWholeIn_endOfInput h

theorem pointsAtText_of_readDocument_error {diagnostics : List Diagnostic}
    (h : readDocument source = .error diagnostics) :
    ∀ d ∈ diagnostics, ∀ label ∈ d.labels, PointsAtText source.toList d label.span := by
  rcases readDocument_eq_error_iff.1 h with h | ⟨ls, fault, hls, hf, rfl⟩
  · exact pointsAtText_of_scan_error h
  · refine List.forall_mem_singleton.2 ?_
    intro label hlabel
    have hcode : (fault.diagnostic ls).code ≠ some .unexpectedCharacter := by
      obtain ⟨m, -, hm⟩ := exists_mistake_of_ofLexemes_error hf
      rw [hm]
      cases m <;> nofun
    rw [PointsAtText, if_neg hcode]
    exact isWholeIn_of_ofLexemes_error (isWholeIn_of_mem_scan hls) hf label hlabel

theorem pointsAtText_of_mem_undeclared {d : Document} (h : readDocument source = .ok d)
    {u : UndeclaredContext} (hu : u ∈ d.undeclared) :
    ∀ label ∈ u.diagnostic.labels, PointsAtText source.toList u.diagnostic label.span := by
  obtain ⟨clause, hclause, hu⟩ := List.mem_flatMap.1 hu
  obtain ⟨name, hname, rfl⟩ := List.mem_map.1 hu
  have hends : ∀ name ∈ clause.ends, name.span.IsWholeIn source.toList := by
    intro name hname
    exact Span.exists_slice?_iff.1 ⟨_, slice?_of_mem_ends h hclause hname⟩
  have hcontext := hends name (List.mem_filter.1 hname).1
  have hsource := hends clause.source.context List.mem_cons_self
  have htarget := hends clause.target.context (List.mem_cons_of_mem _ List.mem_cons_self)
  intro label hlabel
  rw [PointsAtText, if_neg (by nofun)]
  rcases List.mem_pair.1 hlabel with rfl | rfl
  · exact hcontext
  · exact hsource.union htarget

theorem pointsAtText_of_mem_messages :
    ∀ d ∈ messages source, ∀ label ∈ d.labels, PointsAtText source.toList d label.span := by
  rw [messages]
  split
  · next reading hread =>
    obtain ⟨d, hd, rfl⟩ := read_eq_ok_iff.1 hread
    intro w hw
    obtain ⟨u, hu, rfl⟩ := List.mem_map.1 hw
    exact pointsAtText_of_mem_undeclared hd hu
  · next diagnostics hread =>
    rw [read] at hread
    rcases Except.bind_eq_error_iff.1 hread with h | ⟨d, -, h⟩
    · exact pointsAtText_of_readDocument_error h
    · cases h

end

/-- Every label marks a part of the source. It is made of whole characters, save that an unexpected
character is marked by its first byte, which is all of it only in ASCII. The labels are handed on
as they are. -/
theorem labels_of_messages (source : String) :
    (∀ d ∈ messages source, ∀ label ∈ d.labels,
      label.span.start ≤ label.span.stop ∧ label.span.stop ≤ source.utf8ByteSize ∧
        IsBoundary source.toList label.span.start ∧
        (d.code ≠ some .unexpectedCharacter →
          ∃ text, label.span.slice? source.toList = some text) ∧
        (d.code = some .unexpectedCharacter →
          ∃ c, label.span.IsFirstByteOf c source.toList ∧
            ((∃ text, label.span.slice? source.toList = some text) ↔ c.utf8Size = 1))) ∧
    ∀ diagnostics, (Failure.source source diagnostics).reports.map Report.labels =
      diagnostics.map Diagnostic.labels := by
  constructor
  · intro d hd label hlabel
    have hpoints := pointsAtText_of_mem_messages d hd label hlabel
    rw [← byteLength_toList]
    refine ⟨label.span.start_le_stop, ?_⟩
    by_cases hcode : d.code = some .unexpectedCharacter
    · rw [PointsAtText, if_pos hcode] at hpoints
      obtain ⟨c, hc⟩ := hpoints
      refine ⟨hc.stop_le, hc.isBoundary_start, fun hne => absurd hcode hne, fun _ => ?_⟩
      exact ⟨c, hc, hc.exists_slice?_iff⟩
    · rw [PointsAtText, if_neg hcode] at hpoints
      refine ⟨hpoints.2.le_byteLength, hpoints.1, fun _ => ?_, fun h => absurd h hcode⟩
      exact Span.exists_slice?_iff.2 hpoints
  · intro diagnostics
    change (diagnostics.map Diagnostic.report).map Report.labels = _
    rw [List.map_map]
    rfl

theorem exists_label_without_text :
    ∃ d ∈ messages "é", ∃ label ∈ d.labels, label.span.slice? "é".toList = none := by
  decide +kernel

end ContextDiagram.Language
