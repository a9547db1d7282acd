import ContextDiagram.Diagram
import ContextDiagram.Proofs.Outcome

namespace ContextDiagram

open Layout Plane

theorem ContextMap.layout_eq_ok_iff {α : Type} [EuclideanScalar α] {m : ContextMap}
    {options : Options α} {layout : MapLayout α} :
    m.layout options = .ok layout ↔
      ∃ placed, distribute (m.contexts.map (SizedContext.ofContext options)) options.canvas
          options.margin = .ok placed ∧
        ⟨options.canvas, placed, (routeAll placed 0 m.relationships).1,
          (routeAll placed 0 m.relationships).2⟩ = layout := by
  rw [ContextMap.layout, Except.bind_eq_ok_iff]
  apply exists_congr
  intro placed
  apply and_congr_right
  intro _
  exact Except.pure_eq_ok_iff

theorem ContextMap.layout_eq_error_iff {α : Type} [EuclideanScalar α] {m : ContextMap}
    {options : Options α} {fault : DistributionFault α} :
    m.layout options = .error fault ↔
      distribute (m.contexts.map (SizedContext.ofContext options)) options.canvas
        options.margin = .error fault := by
  rw [ContextMap.layout, Except.bind_eq_error_iff]
  apply or_iff_left
  intro h
  obtain ⟨placed, -, h⟩ := h
  cases h

theorem ContextMap.layoutWith_eq_ok_iff {m : ContextMap} {settings : Settings}
    {measure : Text.Measure Float32} {layout : MapLayout Float32} :
    m.layoutWith settings measure = .ok layout ↔
      m.layout (settings.options measure) = .ok layout := by
  rw [layoutWith]
  split
  · next h => rw [h, Except.ok.injEq, Except.ok.injEq]
  · next h =>
    rw [h]
    exact iff_of_false nofun nofun

theorem ContextMap.layoutWith_eq_error_iff {m : ContextMap} {settings : Settings}
    {measure : Text.Measure Float32} {failure : Failure} :
    m.layoutWith settings measure = .error failure ↔
      ∃ fault, m.layout (settings.options measure) = .error fault ∧ .layout fault = failure := by
  rw [layoutWith]
  split
  · next h =>
    rw [h]
    exact iff_of_false nofun nofun
  · next fault h =>
    rw [h, Except.error.injEq]
    constructor
    · intro hf
      exact ⟨fault, rfl, hf⟩
    · intro hf
      obtain ⟨fault', he, hf⟩ := hf
      cases he
      exact hf

theorem ContextMap.drawing_eq_ok_iff {m : ContextMap} {settings : Settings}
    {measure : Text.Measure Float32} {drawing : Drawing} :
    m.drawing settings measure = .ok drawing ↔
      ∃ layout, m.layoutWith settings measure = .ok layout ∧ layout.faults = [] ∧
        .ofLayout layout settings.font = drawing := by
  rw [ContextMap.drawing, Except.bind_eq_ok_iff]
  apply exists_congr
  intro layout
  apply and_congr_right
  intro _
  by_cases hf : layout.faults = []
  · rw [if_pos (List.isEmpty_iff.2 hf), and_iff_right hf]
    exact Except.pure_eq_ok_iff
  · rw [if_neg fun h => hf (List.isEmpty_iff.1 h)]
    exact iff_of_false nofun fun h => hf h.1

theorem ContextMap.drawing_eq_unrouted_iff {m : ContextMap} {settings : Settings}
    {measure : Text.Measure Float32} {faults : List RoutingFault} :
    m.drawing settings measure = .error (.unrouted faults) ↔
      ∃ layout, m.layoutWith settings measure = .ok layout ∧ layout.faults = faults ∧
        faults ≠ [] := by
  rw [drawing, Except.bind_eq_error_iff]
  constructor
  · intro h
    rcases h with h | ⟨layout, hl, h⟩
    · rw [layoutWith] at h
      split at h <;> cases h
    · split at h
      · cases h
      · next hne =>
        cases h
        exact ⟨layout, hl, rfl, fun h => hne (List.isEmpty_iff.2 h)⟩
  · intro h
    obtain ⟨layout, hl, rfl, hne⟩ := h
    refine .inr ⟨layout, hl, ?_⟩
    rw [if_neg fun h => hne (List.isEmpty_iff.1 h)]
    rfl

end ContextDiagram
