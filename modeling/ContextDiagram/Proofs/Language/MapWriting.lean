import ContextDiagram.Diagram
import ContextDiagram.Proofs.Language.Phrase
import ContextDiagram.Proofs.Language.Reading
import ContextDiagram.Proofs.Language.Writing

namespace ContextDiagram

open ContextDiagram.Language

def Endpoint.IsWritable (e : Endpoint) : Prop :=
  IsIdentifier e.context ∧ ∀ tag ∈ e.tags, IsIdentifier tag

namespace ContextMap

/-- Whether all names of a map are identifiers, and no context has a name to show instead. -/
def IsWritable (m : ContextMap) : Prop :=
  (∀ name ∈ m.name, IsIdentifier name) ∧
    (∀ c ∈ m.contexts, IsIdentifier c.id ∧ c.label = none) ∧
      ∀ r ∈ m.relationships, r.source.IsWritable ∧ r.target.IsWritable

/-- A text for a map: blanks and comments alone if the map is empty and has no name, or a block
with phrases for it. -/
def IsWrittenAs (m : ContextMap) (cs : List Char) : Prop :=
  (m = .empty ∧ Writes false [] cs) ∨
    ∃ phrases, Describes phrases m ∧ Writes false (blockTokens m.name phrases) cs

end ContextMap

theorem Language.forall_seriesTokens_iff {first : String} {others : List String} :
    (∀ t ∈ seriesTokens first others, t.IsWritable) ↔
      ∀ name ∈ first :: others, IsIdentifier name := by
  induction others generalizing first with
  | nil =>
    simp only [seriesTokens, List.flatMap_nil, List.forall_mem_cons,
      Token.isWritable_identifier_iff, List.not_mem_nil, false_imp_iff, implies_true]
  | cons other others ih =>
    have hcomma : Token.comma.IsWritable := ⟨rfl, [','], rfl⟩
    rw [seriesTokens_cons, List.forall_mem_cons, List.forall_mem_cons, ih,
      Token.isWritable_identifier_iff, and_iff_right hcomma, ← List.forall_mem_cons]

theorem Language.forall_bracketed_iff {tags : List String} :
    (∀ t ∈ bracketed tags, t.IsWritable) ↔ ∀ tag ∈ tags, IsIdentifier tag := by
  cases tags with
  | nil => exact iff_of_true nofun nofun
  | cons first others =>
    have hopen : Token.openBracket.IsWritable := ⟨rfl, ['['], rfl⟩
    have hclose : Token.closeBracket.IsWritable := ⟨rfl, [']'], rfl⟩
    rw [bracketed, List.forall_mem_cons, List.forall_mem_append, forall_seriesTokens_iff,
      List.forall_mem_singleton, and_iff_right hopen, and_iff_left hclose]

theorem Language.Phrase.forall_tokens_iff (p : Phrase) :
    (∀ t ∈ p.tokens, t.IsWritable) ↔
      (∀ id ∈ p.declared, IsIdentifier id) ∧
        ∀ r ∈ p.relationship?, r.source.IsWritable ∧ r.target.IsWritable := by
  cases p with
  | contains first others =>
    have hcontains : Token.contains.IsWritable := ⟨rfl, "contains".toList, rfl⟩
    rw [tokens, List.forall_mem_cons, forall_seriesTokens_iff, and_iff_right hcontains]
    exact (and_iff_left fun _ hr => by cases hr).symm
  | relationship leading source trailing direction tags target =>
    have harrow : (Token.arrow direction).IsWritable := ⟨rfl, direction.text.toList, rfl⟩
    simp only [tokens, declared, relationship?, List.forall_mem_append, List.forall_mem_cons,
      forall_bracketed_iff, Token.isWritable_identifier_iff,
      and_iff_right harrow, Option.mem_some_iff, forall_eq', Endpoint.IsWritable]
    tauto

theorem Language.Describes.forall_blockTokens_iff {phrases : List Phrase} {m : ContextMap}
    (h : Describes phrases m) :
    (∀ t ∈ blockTokens m.name phrases, t.IsWritable) ↔ m.IsWritable := by
  have hkeyword : Token.contextMap.IsWritable := ⟨rfl, "ContextMap".toList, rfl⟩
  have hopen : Token.openBrace.IsWritable := ⟨rfl, ['{'], rfl⟩
  have hclose : Token.closeBrace.IsWritable := ⟨rfl, ['}'], rfl⟩
  have hname : (∀ t ∈ m.name.toList.map Token.identifier, t.IsWritable) ↔
      ∀ name ∈ m.name, IsIdentifier name := by
    simp only [List.forall_mem_map, Token.isWritable_identifier_iff, Option.mem_toList,
      Option.mem_def]
  have hcontexts : (∀ c ∈ m.contexts, IsIdentifier c.id ∧ c.label = none) ↔
      ∀ p ∈ phrases, ∀ id ∈ p.declared, IsIdentifier id := by
    rw [h.1]
    simp only [List.forall_mem_map, List.forall_mem_flatMap, and_true]
  have hrelationships : (∀ r ∈ m.relationships, r.source.IsWritable ∧ r.target.IsWritable) ↔
      ∀ p ∈ phrases, ∀ r ∈ p.relationship?, r.source.IsWritable ∧ r.target.IsWritable := by
    rw [h.2]
    simp only [List.forall_mem_filterMap, Option.mem_def]
  rw [blockTokens, List.forall_mem_cons, List.forall_mem_append, List.forall_mem_cons,
    List.forall_mem_append, List.forall_mem_singleton, and_iff_right hkeyword, hname,
    and_iff_right hopen, and_iff_left hclose, List.forall_mem_flatMap, ContextMap.IsWritable,
    hcontexts, hrelationships]
  simp only [Phrase.forall_tokens_iff, ← forall_and]

/-- Phrases for a map: each context is declared on its own, then the relationships follow, with the
tags of a source before its name. -/
def Language.phrasesOf (m : ContextMap) : List Phrase :=
  m.contexts.map (fun c => .contains c.id []) ++
    m.relationships.map fun r =>
      .relationship r.source.tags r.source.context [] r.direction r.target.tags r.target.context

theorem Language.describes_phrasesOf {m : ContextMap} (h : ∀ c ∈ m.contexts, c.label = none) :
    Describes (phrasesOf m) m := by
  have hdeclared : (phrasesOf m).flatMap Phrase.declared = m.contexts.map BoundedContext.id := by
    have hnone : m.relationships.flatMap (fun _ => ([] : List String)) = [] :=
      List.flatMap_eq_nil_iff.2 fun _ _ => rfl
    rw [phrasesOf, List.flatMap_append, List.flatMap_map, List.flatMap_map]
    simp only [Phrase.declared, hnone, List.append_nil, ← List.map_eq_flatMap]
  have hlabels : ∀ c ∈ m.contexts, c = { id := c.id } := by
    intro c hc
    obtain ⟨id, label⟩ := c
    obtain rfl : label = none := h _ hc
    rfl
  constructor
  · rw [hdeclared, List.map_map]
    exact (List.map_id _).symm.trans (List.map_congr_left hlabels)
  · simp only [phrasesOf, List.filterMap_append, List.filterMap_map, Function.comp_def,
      Phrase.relationship?, List.append_nil, List.filterMap_none, List.nil_append]
    exact List.filterMap_some.symm

theorem ContextMap.ofSource_eq_ok_iff_readDocument {source : String} {m : ContextMap} :
    ofSource source = .ok m ↔ ∃ d, readDocument source = .ok d ∧ d.contextMap = m := by
  rw [ofSource]
  split
  · next reading h =>
    obtain ⟨d, hd, rfl⟩ := read_eq_ok_iff.1 h
    rw [hd]
    simp only [Except.ok.injEq, exists_eq_left']
  · next diagnostics h =>
    refine iff_of_false nofun ?_
    intro h
    obtain ⟨d, hd, -⟩ := h
    cases h.symm.trans (read_eq_ok_iff.2 ⟨d, hd, rfl⟩)

theorem ContextMap.ofSource_eq_ok_iff_isWrittenAs {source : String} {m : ContextMap} :
    ofSource source = .ok m ↔ m.IsWrittenAs source.toList := by
  rw [ofSource_eq_ok_iff_readDocument]
  constructor
  · intro h
    obtain ⟨d, hd, hm⟩ := h
    obtain ⟨ls, hls, hd⟩ := readDocument_eq_ok_iff.1 hd
    rcases exists_document_iff.1 ⟨d, hd, hm⟩ with ⟨rfl, h⟩ | ⟨phrases, hm, h⟩
    · exact .inl ⟨rfl, exists_scan_iff_writes.1 ⟨ls, hls, h⟩⟩
    · exact .inr ⟨phrases, hm, exists_scan_iff_writes.1 ⟨ls, hls, h⟩⟩
  · intro h
    rcases h with ⟨hm, h⟩ | ⟨phrases, hm, h⟩
    · obtain ⟨ls, hls, h⟩ := exists_scan_iff_writes.2 h
      obtain ⟨d, hd, rfl⟩ := exists_document_iff.2 (.inl ⟨hm, h⟩)
      exact ⟨d, readDocument_eq_ok_iff.2 ⟨ls, hls, hd⟩, rfl⟩
    · obtain ⟨ls, hls, h⟩ := exists_scan_iff_writes.2 h
      obtain ⟨d, hd, rfl⟩ := exists_document_iff.2 (.inr ⟨phrases, hm, h⟩)
      exact ⟨d, readDocument_eq_ok_iff.2 ⟨ls, hls, hd⟩, rfl⟩

theorem ContextMap.isWritable_empty : empty.IsWritable :=
  ⟨nofun, nofun, nofun⟩

/-- A source text is read as a map if and only if it is a text for this map; and the maps that have
one are those whose names are identifiers and whose contexts have no label. -/
theorem ContextMap.ofSource_eq_ok_iff :
    (∀ source m, ofSource source = .ok m ↔ m.IsWrittenAs source.toList) ∧
      ∀ m, (∃ source, ofSource source = .ok m) ↔ m.IsWritable := by
  refine ⟨fun source m => ofSource_eq_ok_iff_isWrittenAs, fun m => ?_⟩
  simp only [ofSource_eq_ok_iff_isWrittenAs]
  constructor
  · intro h
    obtain ⟨source, hs⟩ := h
    rcases hs with ⟨rfl, -⟩ | ⟨phrases, hm, h⟩
    · exact isWritable_empty
    · exact hm.forall_blockTokens_iff.1 h.isWritable
  · intro h
    have hm := describes_phrasesOf fun c hc => (h.2.1 c hc).2
    obtain ⟨source, hs⟩ := exists_writes_iff.2 (hm.forall_blockTokens_iff.2 h)
    exact ⟨source, .inr ⟨_, hm, hs⟩⟩

end ContextDiagram
