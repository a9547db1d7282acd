import ContextDiagram.Proofs.Language.Formatting
import ContextDiagram.Proofs.Language.OpenBlock
import ContextDiagram.Proofs.Language.Reading

namespace ContextDiagram.Language

open Source

variable {ls : List Lexeme} {mistake : Mistake} {fault : Fault}

def secondarySpans (d : Diagnostic) : List Span :=
  (d.labels.filter fun label => !label.isPrimary).map Label.span

/-- What a message says of meaningful tokens of which the first `k` could still begin a document. -/
structure MarksMistake (tokens : List Lexeme) (k : Nat) (d : Diagnostic) : Prop where
  viable : ∃ accepted document, Document.ofLexemes accepted = .ok document ∧
    tokens.take k <+: meaningful accepted
  unclosedBlock_iff : ∀ closed, d.code = some .unclosedBlock ↔
    ∃ document, Document.ofLexemes (tokens ++ [⟨.closeBrace, closed⟩]) = .ok document
  unclosedTagList_iff : d.code = some .unclosedTagList ↔
    (∃ opened, EndsInTags opened (tokens.take k)) ∧
      ∀ next ∈ tokens[k]?, next.token ≠ .comma ∧ next.token ≠ .closeBracket
  otherwise : d.code ≠ some .unclosedBlock → d.code ≠ some .unclosedTagList →
    d.code = some .unexpectedToken
  opened_block : d.code = some .unclosedBlock → ∃ front opened back,
    tokens = front ++ ⟨.openBrace, opened⟩ :: back ∧
      (∀ l ∈ back, l.token ≠ .openBrace ∧ l.token ≠ .closeBrace) ∧ secondarySpans d = [opened]
  opened_tags : d.code = some .unclosedTagList → ∃ opened,
    EndsInTags opened (tokens.take k) ∧ secondarySpans d = [opened]

theorem meaningful_meaningful_append (ls ms : List Lexeme) :
    meaningful (meaningful ls ++ ms) = meaningful ls ++ meaningful ms := by
  simp only [meaningful, List.filter_append, List.filter_filter, Bool.and_self]

/-- A closing brace is all that tokens lack exactly if they are an open block. -/
theorem exists_document_append_iff {closed : Span} :
    (∃ document, Document.ofLexemes (meaningful ls ++ [⟨.closeBrace, closed⟩]) = .ok document) ↔
      ∃ keyword name opened ss, meaningful ls = openBlock keyword name opened ss := by
  simp only [ofLexemes_eq_ok_iff_document, meaningful_meaningful_append]
  constructor
  · intro h
    obtain ⟨d, hd⟩ := h
    exact exists_openBlock_of_append hd
  · intro h
    obtain ⟨keyword, name, opened, ss, he⟩ := h
    rw [he]
    exact document_openBlock_append keyword opened closed name ss

theorem code_eq_unclosedBlock_iff (h : document ls = .error mistake) (lexemes : List Lexeme) :
    (mistake.diagnostic lexemes).code = some .unclosedBlock ↔
      ∃ keyword name opened ss, ls = openBlock keyword name opened ss := by
  constructor
  · intro hcode
    obtain ⟨before, rfl, hmarks, -⟩ := document_error h
    cases mistake with
    | unexpected expected rest => cases hcode
    | unclosedTagList opened rest => cases hcode
    | unclosedBlock opened =>
      obtain ⟨keyword, name, ss, rfl⟩ := hmarks
      exact ⟨keyword, name, opened, ss, List.append_nil _⟩
  · intro hopen
    obtain ⟨keyword, name, opened, ss, rfl⟩ := hopen
    rw [document_openBlock] at h
    cases h
    rfl

theorem Mistake.Marks.code_eq_unclosedTagList_iff (h : mistake.Marks ls) (lexemes : List Lexeme) :
    (mistake.diagnostic lexemes).code = some .unclosedTagList ↔
      (∃ opened, EndsInTags opened ls) ∧
        ∀ next ∈ mistake.rest.head?, next.token ≠ .comma ∧ next.token ≠ .closeBracket := by
  cases mistake with
  | unexpected expected rest => exact iff_of_false nofun fun ⟨⟨opened, htags⟩, _⟩ => h opened htags
  | unclosedTagList opened rest =>
    obtain ⟨htags, hcomma, hbracket⟩ := h
    exact iff_of_true rfl ⟨⟨opened, htags⟩, fun next hn => ⟨hcomma next hn, hbracket next hn⟩⟩
  | unclosedBlock opened =>
    obtain ⟨keyword, name, ss, rfl⟩ := h
    refine iff_of_false nofun ?_
    intro hopen
    obtain ⟨⟨bracket, htags⟩, -⟩ := hopen
    exact (tagsClosed_openBlock keyword opened name ss).not_endsInTags htags

theorem Mistake.Marks.opened_block (h : mistake.Marks ls) {lexemes : List Lexeme}
    (hcode : (mistake.diagnostic lexemes).code = some .unclosedBlock) :
    ∃ front opened back, ls ++ mistake.rest = front ++ ⟨.openBrace, opened⟩ :: back ∧
      (∀ l ∈ back, l.token ≠ .openBrace ∧ l.token ≠ .closeBrace) ∧
        secondarySpans (mistake.diagnostic lexemes) = [opened] := by
  cases mistake with
  | unexpected expected rest => cases hcode
  | unclosedTagList opened rest => cases hcode
  | unclosedBlock opened =>
    obtain ⟨keyword, name, ss, rfl⟩ := h
    refine ⟨⟨.contextMap, keyword⟩ :: name.toList.map nameLexeme, opened,
      ss.flatMap StatementTree.yield, List.append_nil _, ?_, rfl⟩
    intro l hl
    have hinner := isInner_of_mem_statements l hl
    constructor
    · intro he
      rw [he] at hinner
      cases hinner
    · intro he
      rw [he] at hinner
      cases hinner

theorem Mistake.Marks.opened_tags (h : mistake.Marks ls) {lexemes : List Lexeme}
    (hcode : (mistake.diagnostic lexemes).code = some .unclosedTagList) :
    ∃ opened, EndsInTags opened ls ∧ secondarySpans (mistake.diagnostic lexemes) = [opened] := by
  cases mistake with
  | unexpected expected rest => cases hcode
  | unclosedTagList opened rest => exact ⟨opened, h.1, rfl⟩
  | unclosedBlock opened => cases hcode

theorem Mistake.code_cases (mistake : Mistake) (lexemes : List Lexeme) :
    (mistake.diagnostic lexemes).code ≠ some .unclosedBlock →
      (mistake.diagnostic lexemes).code ≠ some .unclosedTagList →
        (mistake.diagnostic lexemes).code = some .unexpectedToken := by
  intro hblock htags
  cases mistake with
  | unexpected expected rest => rfl
  | unclosedTagList opened rest => exact absurd rfl htags
  | unclosedBlock opened => exact absurd rfl hblock

theorem marksMistake_of_document_error (h : document (meaningful ls) = .error mistake) :
    ∃ k, (meaningful ls).drop k = mistake.rest ∧ k ≤ (meaningful ls).length ∧
      MarksMistake (meaningful ls) k (mistake.diagnostic ls) := by
  obtain ⟨before, hbefore, hmarks, more, d, hd⟩ := document_error h
  have htake : (meaningful ls).take before.length = before := by
    rw [hbefore, List.take_left]
  have hdrop : (meaningful ls).drop before.length = mistake.rest := by
    rw [hbefore, List.drop_left]
  have hnext : (meaningful ls)[before.length]? = mistake.rest.head? := by
    rw [← hdrop, List.head?_drop]
  have hlength : before.length ≤ (meaningful ls).length := by
    rw [hbefore, List.length_append]
    exact Nat.le_add_right _ _
  refine ⟨before.length, hdrop, hlength, ?_⟩
  constructor
  case viable =>
    have hmeaningful := meaningful_of_document hd
    refine ⟨before ++ more, d, ?_, ?_⟩
    · rw [ofLexemes_eq_ok_iff_document, hmeaningful, hd]
    · rw [htake, hmeaningful]
      exact List.prefix_append before more
  case unclosedBlock_iff =>
    intro closed
    rw [exists_document_append_iff, code_eq_unclosedBlock_iff h]
  case unclosedTagList_iff =>
    rw [htake, hnext, hmarks.code_eq_unclosedTagList_iff]
  case otherwise => exact mistake.code_cases ls
  case opened_block =>
    intro hcode
    rw [hbefore]
    exact hmarks.opened_block hcode
  case opened_tags =>
    intro hcode
    rw [htake]
    exact hmarks.opened_tags hcode

theorem primarySpan_diagnostic (mistake : Mistake) (lexemes : List Lexeme) :
    (mistake.diagnostic lexemes).primarySpan = some (offendingSpan lexemes mistake.rest.head?) := by
  cases mistake <;> rfl

theorem Tiles.start_lt_endOfInput {start stop : Nat} (h : Tiles start stop ls) :
    ∀ l ∈ ls, l.span.start < (endOfInput ls).start := by
  intro l hl
  cases hlast : ls.getLast? with
  | none =>
    rw [List.getLast?_eq_none_iff.1 hlast] at hl
    cases hl
  | some last =>
    obtain ⟨hstop, hstarts⟩ := h.stop_of_getLast? hlast
    rw [endOfInput, hlast]
    change l.span.start < last.span.stop
    rw [hstop]
    exact hstarts l hl

theorem countP_start_lt_offendingSpan {source : String} (hls : scan source = .ok ls) {k : Nat}
    (hk : k ≤ (meaningful ls).length) :
    (meaningful ls).countP
      (fun l => l.span.start < (offendingSpan ls ((meaningful ls).drop k).head?).start) = k := by
  have htiles := (scan_eq_ok_iff_cuts.1 hls).tiles
  have hsorted : (meaningful ls).Pairwise fun l m => l.span.start < m.span.start :=
    htiles.pairwise_start.sublist List.filter_sublist
  rw [← List.take_append_drop k (meaningful ls)] at hsorted
  obtain ⟨-, hrest, hbefore⟩ := List.pairwise_append.1 hsorted
  generalize hplace : (offendingSpan ls ((meaningful ls).drop k).head?).start = place
  have htake : ∀ l ∈ (meaningful ls).take k, decide (l.span.start < place) = true := by
    intro l hl
    rw [decide_eq_true_iff, ← hplace]
    cases hd : (meaningful ls).drop k with
    | nil => exact htiles.start_lt_endOfInput l (List.mem_filter.1 (List.mem_of_mem_take hl)).1
    | cons next rest =>
      rw [hd] at hbefore
      exact hbefore l hl next List.mem_cons_self
  have hdrop : ∀ l ∈ (meaningful ls).drop k, ¬decide (l.span.start < place) = true := by
    intro l hl
    rw [decide_eq_true_iff, ← hplace, Nat.not_lt]
    cases hd : (meaningful ls).drop k with
    | nil =>
      rw [hd] at hl
      cases hl
    | cons next rest =>
      rw [hd] at hl hrest
      rcases List.mem_cons.1 hl with rfl | hl
      · exact Nat.le_refl _
      · exact Nat.le_of_lt ((List.pairwise_cons.1 hrest).1 l hl)
  calc (meaningful ls).countP (fun l => l.span.start < place)
      = ((meaningful ls).take k ++ (meaningful ls).drop k).countP
          (fun l => l.span.start < place) := by rw [List.take_append_drop]
    _ = ((meaningful ls).take k).length + 0 := by
      rw [List.countP_append, List.countP_eq_length.2 htake, List.countP_eq_zero.2 hdrop]
    _ = k := by rw [Nat.add_zero, List.length_take, Nat.min_eq_left hk]

/-- If the tokens of a source text form no document, there is one message. It points at a meaningful
token or behind the last token, and says of the meaningful tokens before that place that a document
may begin with them, and what is left open there. -/
theorem marksMistake_of_ofLexemes_error {source : String} (hls : scan source = .ok ls)
    (h : Document.ofLexemes ls = .error fault) :
    readDocument source = .error [fault.diagnostic ls] ∧
      ∃ primary k, (fault.diagnostic ls).primarySpan = some primary ∧
        k = (meaningful ls).countP (fun l => l.span.start < primary.start) ∧
        (StandsAt ls k primary ∨ k = (meaningful ls).length ∧ IsEndOf ls primary) ∧
        MarksMistake (meaningful ls) k (fault.diagnostic ls) := by
  obtain ⟨m, hm, hdiagnostic⟩ := exists_mistake_of_ofLexemes_error h
  obtain ⟨k, hdrop, hk, hmarks⟩ := marksMistake_of_document_error hm
  rw [hdiagnostic]
  refine ⟨?_, offendingSpan ls m.rest.head?, k, primarySpan_diagnostic m ls, ?_, ?_, hmarks⟩
  · exact readDocument_eq_error_iff.2 (.inr ⟨ls, fault, hls, h, by rw [hdiagnostic]⟩)
  · rw [← hdrop, countP_start_lt_offendingSpan hls hk]
  · cases hrest : m.rest with
    | nil =>
      rw [hrest, List.drop_eq_nil_iff] at hdrop
      exact .inr ⟨Nat.le_antisymm hk hdrop, isEndOf_endOfInput h⟩
    | cons next rest =>
      rw [hrest] at hdrop
      refine .inl ?_
      rw [StandsAt, List.getElem?_map, ← List.head?_drop, hdrop]
      rfl

theorem marksMistake_of_ofLexemes_error_bracket : ∃ ls fault,
    scan "ContextMap { A [U, OHS -> B }" = .ok ls ∧ Document.ofLexemes ls = .error fault ∧
      readDocument "ContextMap { A [U, OHS -> B }" = .error [fault.diagnostic ls] ∧
      ∃ primary k, (fault.diagnostic ls).primarySpan = some primary ∧
        k = (meaningful ls).countP (fun l => l.span.start < primary.start) ∧
        (StandsAt ls k primary ∨ k = (meaningful ls).length ∧ IsEndOf ls primary) ∧
        MarksMistake (meaningful ls) k (fault.diagnostic ls) := by
  have h : (do
      let ls ← scan "ContextMap { A [U, OHS -> B }"
      return decide ((Document.ofLexemes ls).isOk = false)) = .ok true := by
    decide +kernel
  obtain ⟨ls, hls, h⟩ := Except.bind_eq_ok_iff.1 h
  have hfails := of_decide_eq_true (Except.pure_eq_ok_iff.1 h)
  cases hf : Document.ofLexemes ls with
  | ok d =>
    rw [hf] at hfails
    cases hfails
  | error fault =>
    obtain ⟨hread, hmarks⟩ := marksMistake_of_ofLexemes_error hls hf
    exact ⟨ls, fault, hls, hf, hread, hmarks⟩

end ContextDiagram.Language
