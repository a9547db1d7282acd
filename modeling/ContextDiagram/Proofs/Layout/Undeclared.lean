import ContextDiagram.Proofs.Drawing
import ContextDiagram.Proofs.Language.Reading
import ContextDiagram.Proofs.Layout.Placement
import ContextDiagram.Proofs.Layout.Routing

namespace ContextDiagram

open ContextDiagram.Language Layout Plane Source

section

variable {α : Type} {contexts : List (SizedContext α)} {declared : List String}

theorem toList_fault? (h : ∀ c ∈ contexts, c.center.isSome = true)
    (hids : contexts.map SizedContext.id = declared) (index : Nat) (name : Located String) :
    (fault? contexts index name.value).toList =
      ([name].filter fun c => !declared.contains c.value).map
        fun c => .unknownContext index c.value := by
  rw [fault?_of_forall_center h, hids, List.filter_cons]
  by_cases hc : name.value ∈ declared
  · have hcontains : declared.contains name.value = true := List.contains_iff_mem.2 hc
    rw [if_pos hc, hcontains]
    rfl
  · have hcontains : declared.contains name.value = false :=
      Bool.eq_false_iff.2 fun h => hc (List.contains_iff_mem.1 h)
    rw [if_neg hc, hcontains]
    rfl

theorem faultsOf_relationship (h : ∀ c ∈ contexts, c.center.isSome = true)
    (hids : contexts.map SizedContext.id = declared) (index : Nat) (clause : RelationshipClause) :
    faultsOf contexts index clause.relationship =
      (clause.ends.filter fun c => !declared.contains c.value).map
        fun c => .unknownContext index c.value := by
  have hends : clause.ends = [clause.source.context] ++ [clause.target.context] := rfl
  rw [hends, List.filter_append, List.map_append, ← toList_fault? h hids, ← toList_fault? h hids]
  rfl

/-- Whether a fault is about an undeclared end of a relationship, and tells where the relationship
stands among some others that are numbered from `index` on. -/
def IsFaultOf (clauses : List RelationshipClause) (index : Nat) (fault : RoutingFault)
    (u : UndeclaredContext) : Prop :=
  ∃ i clause, clauses[i]? = some clause ∧ u.context ∈ clause.ends ∧
    fault = .unknownContext (index + i) u.context.value

theorem IsFaultOf.cons {clauses : List RelationshipClause} {index : Nat} {fault : RoutingFault}
    {u : UndeclaredContext} (h : IsFaultOf clauses (index + 1) fault u)
    (clause : RelationshipClause) : IsFaultOf (clause :: clauses) index fault u := by
  obtain ⟨i, clause', hi, hu, rfl⟩ := h
  refine ⟨i + 1, clause', hi, hu, ?_⟩
  rw [Nat.add_right_comm, Nat.add_assoc]

theorem forall₂_isFaultOf_ofClause (h : ∀ c ∈ contexts, c.center.isSome = true)
    (hids : contexts.map SizedContext.id = declared) (index : Nat) (clause : RelationshipClause)
    (clauses : List RelationshipClause) :
    List.Forall₂ (IsFaultOf (clause :: clauses) index)
      (faultsOf contexts index clause.relationship)
      (UndeclaredContext.ofClause declared clause) := by
  rw [faultsOf_relationship h hids, UndeclaredContext.ofClause, List.forall₂_map_left_iff,
    List.forall₂_map_right_iff]
  apply List.forall₂_same.2
  intro c hc
  exact ⟨0, clause, rfl, (List.mem_filter.1 hc).1, rfl⟩

theorem forall₂_isFaultOf_undeclared [EuclideanScalar α]
    (h : ∀ c ∈ contexts, c.center.isSome = true)
    (hids : contexts.map SizedContext.id = declared) (index : Nat)
    (clauses : List RelationshipClause) :
    List.Forall₂ (IsFaultOf clauses index)
      (routeAll contexts index (clauses.map RelationshipClause.relationship)).2
      (clauses.flatMap (UndeclaredContext.ofClause declared)) := by
  induction clauses generalizing index with
  | nil => exact .nil
  | cons clause clauses ih =>
    rw [List.map_cons, routeAll_cons_snd, List.flatMap_cons]
    apply List.rel_append
    · exact forall₂_isFaultOf_ofClause h hids index clause clauses
    · exact (ih (index + 1)).imp fun _ _ hf => hf.cons clause

end

/-- Whether a fault of a layout and a warning about the source are about the same name: an end of a
relationship, whose number the fault gives, and whose name is the text that the warning marks. -/
def Layout.RoutingFault.Matches (source : String) (d : Document) (fault : RoutingFault)
    (warning : Diagnostic) : Prop :=
  ∃ index clause name, d.clauses[index]? = some clause ∧ name ∈ clause.ends ∧
    warning.code = some .undeclaredContext ∧ warning.primarySpan = some name.span ∧
    name.span.slice? source.toList = some name.value.toList ∧
    fault = .unknownContext index name.value

theorem IsFaultOf.matches {source : String} {d : Document} (hd : readDocument source = .ok d)
    {fault : RoutingFault} {u : UndeclaredContext} (h : IsFaultOf d.clauses 0 fault u) :
    fault.Matches source d u.diagnostic := by
  obtain ⟨i, clause, hi, hu, rfl⟩ := h
  have hslice := slice?_of_mem_ends hd (List.mem_of_getElem? hi) hu
  refine ⟨i, clause, u.context, hi, hu, rfl, rfl, hslice, ?_⟩
  rw [Nat.zero_add]

theorem forall₂_matches {α : Type} [EuclideanScalar α] {source : String} {d : Document}
    (hd : readDocument source = .ok d) {options : Options α} {layout : MapLayout α}
    (hl : d.contextMap.layout options = .ok layout) :
    List.Forall₂ (RoutingFault.Matches source d) layout.faults
      (d.undeclared.map UndeclaredContext.diagnostic) := by
  obtain ⟨placed, hplaced, rfl⟩ := ContextMap.layout_eq_ok_iff.1 hl
  have harePlaced := arePlaced_of_distribute hplaced
  have hids : placed.map SizedContext.id = d.declarations.map Located.value := by
    rw [harePlaced.map_id, Document.contextMap, List.map_map, List.map_map]
    rfl
  have hfaults := forall₂_isFaultOf_undeclared harePlaced.isSome_center hids 0 d.clauses
  rw [List.forall₂_map_right_iff]
  exact hfaults.imp fun _ _ hf => hf.matches hd

theorem ne_nil_iff_of_matches {source : String} {d : Document} {faults : List RoutingFault}
    {warnings : List Diagnostic}
    (h : List.Forall₂ (RoutingFault.Matches source d) faults warnings) :
    faults ≠ [] ↔ ∃ warning ∈ warnings, warning.code = some .undeclaredContext := by
  cases h with
  | nil =>
    apply iff_of_false
    · intro hne
      exact hne rfl
    · intro hw
      obtain ⟨warning, hmem, -⟩ := hw
      cases hmem
  | cons hm _ =>
    obtain ⟨_, _, _, _, _, hcode, -⟩ := hm
    exact iff_of_true (List.cons_ne_nil _ _) ⟨_, List.mem_cons_self, hcode⟩

/-- The faults of a layout are about the names that the warnings about the source mark, in the same
order; so a map that has a layout has a drawing as well, unless there was a warning. -/
theorem faults_match_warnings {source : String} {reading : Reading}
    (h : read source = .ok reading) :
    (∀ {α : Type} [EuclideanScalar α] (options : Options α) (layout : MapLayout α),
      reading.map.layout options = .ok layout →
        ∃ d, readDocument source = .ok d ∧ d.contextMap = reading.map ∧
          List.Forall₂ (RoutingFault.Matches source d) layout.faults reading.warnings) ∧
    ∀ settings measure layout, reading.map.layoutWith settings measure = .ok layout →
      ((∃ faults, reading.map.drawing settings measure = .error (.unrouted faults)) ↔
        ∃ warning ∈ reading.warnings, warning.code = some .undeclaredContext) := by
  obtain ⟨d, hd, rfl⟩ := read_eq_ok_iff.1 h
  refine ⟨fun options layout hl => ⟨d, hd, rfl, forall₂_matches hd hl⟩, ?_⟩
  intro settings measure layout hl
  have hmatches := forall₂_matches hd (ContextMap.layoutWith_eq_ok_iff.1 hl)
  rw [← ne_nil_iff_of_matches hmatches]
  constructor
  · intro h'
    obtain ⟨faults, hdrawing⟩ := h'
    obtain ⟨layout', hl', rfl, hne⟩ := ContextMap.drawing_eq_unrouted_iff.1 hdrawing
    cases hl.symm.trans hl'
    exact hne
  · intro hne
    exact ⟨_, ContextMap.drawing_eq_unrouted_iff.2 ⟨layout, hl, rfl, hne⟩⟩

theorem faults_match_warnings_two : ∃ reading layout faults,
    read "ContextMap { A -> B }" = .ok reading ∧
      reading.map.layoutWith .standard (.constant 10 10) = .ok layout ∧
      layout.faults.length = 2 ∧
      reading.map.drawing .standard (.constant 10 10) = .error (.unrouted faults) := by
  obtain ⟨reading, hread, hcodes, hlayout⟩ : ∃ reading, read "ContextMap { A -> B }" = .ok reading ∧
      reading.warnings.map Diagnostic.code = [some .undeclaredContext, some .undeclaredContext] ∧
      (reading.map.layoutWith .standard (.constant 10 10)).isOk = true := by
    refine ⟨⟨{ relationships := [⟨⟨"A", []⟩, .toTarget, ⟨"B", []⟩⟩] },
      [UndeclaredContext.diagnostic ⟨⟨"A", ⟨13, 14, by decide⟩⟩, ⟨13, 19, by decide⟩⟩,
        UndeclaredContext.diagnostic ⟨⟨"B", ⟨18, 19, by decide⟩⟩, ⟨13, 19, by decide⟩⟩]⟩,
      ?_, rfl, ?_⟩
    · decide +kernel
    · decide +kernel
  obtain ⟨hmatches, hdrawing⟩ := faults_match_warnings hread
  cases hl : reading.map.layoutWith .standard (.constant 10 10) with
  | error fault =>
    rw [hl] at hlayout
    cases hlayout
  | ok layout =>
    obtain ⟨d, -, -, hd⟩ := hmatches _ layout (ContextMap.layoutWith_eq_ok_iff.1 hl)
    have hlength := congrArg List.length hcodes
    rw [List.length_map, ← hd.length_eq] at hlength
    have hcode : some .undeclaredContext ∈ reading.warnings.map Diagnostic.code := by
      rw [hcodes]
      exact List.mem_cons_self
    obtain ⟨faults, hf⟩ := (hdrawing _ _ layout hl).2 (List.mem_map.1 hcode)
    exact ⟨reading, layout, faults, hread, hl, hlength, hf⟩

end ContextDiagram
