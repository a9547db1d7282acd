import ContextDiagram.Language.Reading
import ContextDiagram.Proofs.Language.Tiling
import ContextDiagram.Proofs.Language.Refinement

namespace ContextDiagram.Language

open Source

theorem readDocument_eq_ok_iff_ofLexemes {source : String} {d : Document} :
    readDocument source = .ok d ↔
      ∃ ls, scan source = .ok ls ∧ Document.ofLexemes ls = .ok d := by
  rw [readDocument, Except.bind_eq_ok_iff]
  apply exists_congr
  intro ls
  apply and_congr_right
  intro _
  cases Document.ofLexemes ls with
  | error fault => exact iff_of_false nofun nofun
  | ok d' =>
    rw [Except.ok.injEq]
    exact Except.pure_eq_ok_iff

theorem readDocument_eq_ok_iff {source : String} {d : Document} :
    readDocument source = .ok d ↔
      ∃ ls, scan source = .ok ls ∧ document (meaningful ls) = .ok d := by
  simp only [readDocument_eq_ok_iff_ofLexemes, ofLexemes_eq_ok_iff_document]

theorem readDocument_eq_error_iff {source : String} {diagnostics : List Diagnostic} :
    readDocument source = .error diagnostics ↔
      scan source = .error diagnostics ∨ ∃ ls fault, scan source = .ok ls ∧
        Document.ofLexemes ls = .error fault ∧ [fault.diagnostic ls] = diagnostics := by
  rw [readDocument, Except.bind_eq_error_iff]
  apply or_congr_right
  apply exists_congr
  intro ls
  cases Document.ofLexemes ls with
  | ok d => exact iff_of_false nofun nofun
  | error fault =>
    constructor
    · intro h
      obtain ⟨hls, h⟩ := h
      cases h
      exact ⟨fault, hls, rfl, rfl⟩
    · intro h
      obtain ⟨fault', hls, he, rfl⟩ := h
      cases he
      exact ⟨hls, rfl⟩

theorem read_eq_ok_iff {source : String} {reading : Reading} :
    read source = .ok reading ↔
      ∃ d, readDocument source = .ok d ∧
        ⟨d.contextMap, d.undeclared.map UndeclaredContext.diagnostic⟩ = reading := by
  rw [read, Except.bind_eq_ok_iff]
  apply exists_congr
  intro d
  apply and_congr_right
  intro _
  exact Except.pure_eq_ok_iff

def RelationshipClause.ends (r : RelationshipClause) : List (Located String) :=
  [r.source.context, r.target.context]

theorem StatementTree.mem_yield_of_mem_ends {s : StatementTree} {clause : RelationshipClause}
    {name : Located String} (hs : s.statement.clause? = some clause) (hn : name ∈ clause.ends) :
    nameLexeme name ∈ s.yield := by
  cases s with
  | contains keyword names => cases hs
  | relationship r =>
    cases hs
    rw [yield, RelationshipTree.yield]
    rcases List.mem_pair.1 hn with rfl | rfl
    · exact List.mem_append_right _ List.mem_cons_self
    · apply List.mem_append_right
      apply List.mem_cons_of_mem
      apply List.mem_append_right
      apply List.mem_cons_of_mem
      exact List.mem_append_right _ (List.mem_singleton.2 rfl)

theorem DocumentTree.mem_yield_of_mem_ends {t : DocumentTree} {clause : RelationshipClause}
    {name : Located String} (hc : clause ∈ t.document.clauses) (hn : name ∈ clause.ends) :
    nameLexeme name ∈ t.yield := by
  obtain ⟨block⟩ := t
  cases block with
  | none => cases hc
  | some b =>
    obtain ⟨statement, hstatement, hclause⟩ := List.mem_filterMap.1 hc
    obtain ⟨s, hs, rfl⟩ := List.mem_map.1 hstatement
    have hmem := s.mem_yield_of_mem_ends hclause hn
    change nameLexeme name ∈ b.yield
    rw [BlockTree.yield]
    apply List.mem_cons_of_mem
    apply List.mem_append_right
    apply List.mem_cons_of_mem
    apply List.mem_append_left
    exact List.mem_flatMap.2 ⟨s, hs, hmem⟩

/-- The source text under the name of a related context is this name. -/
theorem slice?_of_mem_ends {source : String} {d : Document} (h : readDocument source = .ok d)
    {clause : RelationshipClause} {name : Located String} (hc : clause ∈ d.clauses)
    (hn : name ∈ clause.ends) : name.span.slice? source.toList = some name.value.toList := by
  obtain ⟨ls, hls, hd⟩ := readDocument_eq_ok_iff.1 h
  obtain ⟨t, ht, rfl⟩ := document_eq_ok_iff.1 hd
  have hmem : nameLexeme name ∈ meaningful ls := ht ▸ DocumentTree.mem_yield_of_mem_ends hc hn
  have hl : nameLexeme name ∈ ls := (List.mem_filter.1 hmem).1
  obtain ⟨text, hslice, rfl, -⟩ := Cuts.isWrittenIn [] (scan_eq_ok_iff_cuts.1 hls) _ hl
  exact hslice

end ContextDiagram.Language
