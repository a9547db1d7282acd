import ContextDiagram.Proofs.Drawing
import ContextDiagram.Proofs.Layout.Placement
import ContextDiagram.Proofs.Layout.Routing

namespace ContextDiagram

open Layout Plane

section

variable {α : Type}

structure Layout.SizedContext.StandsFor (placed : SizedContext α) (c : BoundedContext) : Prop where
  id_eq : placed.id = c.id
  label_eq : placed.label = c.displayLabel
  isSome_center : placed.center.isSome = true

structure MapLayout.Covers (layout : MapLayout α) (m : ContextMap) : Prop where
  contexts : List.Forall₂ (fun c placed => placed.StandsFor c) m.contexts layout.contexts
  placed : ∀ id, .unplacedContext id ∉ layout.faults
  settled : ∀ i < m.relationships.length, IsSettled layout.links layout.faults i

theorem Layout.ArePlaced.forall₂_standsFor [Scalar α] {options : Options α}
    {contexts : List BoundedContext} {placed : List (SizedContext α)}
    (h : ArePlaced (contexts.map (SizedContext.ofContext options)) placed) :
    List.Forall₂ (fun c p => p.StandsFor c) contexts placed := by
  rw [ArePlaced, List.forall₂_map_left_iff] at h
  apply h.imp
  intro c p hp
  obtain ⟨center, rfl⟩ := hp
  exact ⟨rfl, rfl, rfl⟩

theorem ContextMap.covers_of_layout [EuclideanScalar α] {m : ContextMap} {options : Options α}
    {layout : MapLayout α} (h : m.layout options = .ok layout) : layout.Covers m := by
  obtain ⟨placed, hplaced, rfl⟩ := layout_eq_ok_iff.1 h
  have harePlaced := arePlaced_of_distribute hplaced
  have hcenter := harePlaced.isSome_center
  have hrouted := routed_routeAll placed 0 m.relationships
  refine ⟨harePlaced.forall₂_standsFor, ?_, ?_⟩
  · intro id hfault
    obtain ⟨i, id', he, -⟩ := hrouted.fault_bounds hcenter _ hfault
    cases he
  · intro i hi
    apply hrouted.isSettled hcenter (Nat.zero_le i)
    rwa [Nat.zero_add]

end

structure ContextShape.Shows (shape : ContextShape) (placed : SizedContext Float32) : Prop where
  id_eq : shape.id = placed.id
  label_eq : shape.label = placed.label
  labelOffset_eq : shape.labelOffset = placed.labelOffset
  radii_eq : shape.radii = placed.radii
  center_eq : placed.center = some shape.center

/-- Whether a shape is that of a link. An end has texts unless there are none to show. -/
structure LinkShape.Shows (shape : LinkShape) (link : Link Float32) : Prop where
  path_eq : shape.path = link.path
  direction_eq : shape.direction = link.direction
  middle_eq : shape.middle = link.labels.middleText.map fun text => (link.labelAnchor, text)
  source_eq_some_iff : ∀ text, shape.source = some text ↔
    link.labels.source.isEmpty = false ∧ text = ⟨link.sourceAnchor, link.labels.source⟩
  target_eq_some_iff : ∀ text, shape.target = some text ↔
    link.labels.target.isEmpty = false ∧ text = ⟨link.targetAnchor, link.labels.target⟩

theorem EndpointText.of?_eq_some_iff {anchor : Point Float32} {label : EndpointLabel}
    {text : EndpointText} :
    EndpointText.of? anchor label = some text ↔ label.isEmpty = false ∧ text = ⟨anchor, label⟩ := by
  rw [EndpointText.of?, eq_comm (a := text)]
  cases label.isEmpty with
  | true => exact iff_of_false nofun nofun
  | false => exact Option.some_inj.trans (and_iff_right rfl).symm

theorem Layout.Link.shows_shape (link : Link Float32) : link.shape.Shows link :=
  ⟨rfl, rfl, rfl, fun _ => EndpointText.of?_eq_some_iff, fun _ => EndpointText.of?_eq_some_iff⟩

theorem forall₂_shows_shape? {placed : List (SizedContext Float32)}
    (h : ∀ c ∈ placed, c.center.isSome = true) :
    List.Forall₂ (fun c shape => shape.Shows c) placed (placed.filterMap SizedContext.shape?) := by
  induction placed with
  | nil => exact .nil
  | cons c placed ih =>
    obtain ⟨hc, hplaced⟩ := List.forall_mem_cons.1 h
    obtain ⟨center, hcenter⟩ := Option.isSome_iff_exists.1 hc
    have hshape : c.shape? = some ⟨c.id, center, c.radii, c.label, c.labelOffset⟩ := by
      rw [SizedContext.shape?, hcenter]
      rfl
    rw [List.filterMap_cons_some hshape]
    exact .cons ⟨rfl, rfl, rfl, rfl, hcenter⟩ (ih hplaced)

/-- A drawing of a whole map: its shapes are those of the layout one by one, and the layout has one
link for each relationship of the map. -/
structure Drawing.Covers (drawing : Drawing) (layout : MapLayout Float32) (m : ContextMap) :
    Prop where
  layout_covers : layout.Covers m
  links_standFor :
    List.Forall₂ (fun p link => link.StandsFor p.2 p.1) m.relationships.zipIdx layout.links
  contexts_show : List.Forall₂ (fun c shape => shape.Shows c) layout.contexts drawing.contexts
  links_show : List.Forall₂ (fun link shape => shape.Shows link) layout.links drawing.links

theorem ContextMap.covers_of_drawing {m : ContextMap} {settings : Settings}
    {measure : Text.Measure Float32} {drawing : Drawing}
    (h : m.drawing settings measure = .ok drawing) :
    ∃ layout, m.layoutWith settings measure = .ok layout ∧ drawing.Covers layout m := by
  obtain ⟨layout, hl, hf, rfl⟩ := drawing_eq_ok_iff.1 h
  obtain ⟨placed, hplaced, rfl⟩ := layout_eq_ok_iff.1 (layoutWith_eq_ok_iff.1 hl)
  refine ⟨_, hl, covers_of_layout (layoutWith_eq_ok_iff.1 hl), ?_, ?_, ?_⟩
  · exact (routed_routeAll placed 0 m.relationships).forall₂_standsFor hf
  · exact forall₂_shows_shape? (arePlaced_of_distribute hplaced).isSome_center
  · rw [Drawing.ofLayout, List.forall₂_map_right_iff]
    exact List.forall₂_same.2 fun link _ => link.shows_shape

/-- A map has a layout unless its contexts cannot be distributed. The layout has all of them, and a
link or a fault for each relationship; a drawing has shapes for both. -/
theorem covers_or_degenerate (m : ContextMap) :
    (∀ {α : Type} [EuclideanScalar α] (options : Options α),
      (∀ fault, m.layout options = .error fault ↔
        distribute (m.contexts.map (SizedContext.ofContext options)) options.canvas
          options.margin = .error fault) ∧
      ∀ layout, m.layout options = .ok layout → layout.Covers m) ∧
    ∀ settings measure,
      (∀ failure, m.layoutWith settings measure = .error failure →
        ∃ fault, failure = .layout fault ∧
          fault.message = "degenerate layout configuration: " ++ fault.cause) ∧
      ∀ drawing, m.drawing settings measure = .ok drawing →
        ∃ layout, m.layoutWith settings measure = .ok layout ∧ drawing.Covers layout m := by
  constructor
  · intro α _ options
    exact ⟨fun _ => ContextMap.layout_eq_error_iff, fun _ => ContextMap.covers_of_layout⟩
  · intro settings measure
    refine ⟨?_, fun _ => ContextMap.covers_of_drawing⟩
    intro failure h
    obtain ⟨fault, -, rfl⟩ := ContextMap.layoutWith_eq_error_iff.1 h
    exact ⟨fault, rfl, rfl⟩

theorem covers_or_degenerate_twice : ∃ (m : ContextMap) (layout : MapLayout Float32)
    (drawing : Drawing), m.contexts.map BoundedContext.id = ["A", "A"] ∧
      m.relationships.length = 1 ∧
      m.layoutWith .standard (.constant 10 10) = .ok layout ∧
      m.drawing .standard (.constant 10 10) = .ok drawing ∧
      drawing.contexts.length = 2 ∧ drawing.links.length = 1 ∧ drawing.Covers layout m := by
  let m : ContextMap := {
    contexts := [⟨"A", none⟩, ⟨"A", some "B"⟩]
    relationships := [⟨⟨"A", []⟩, .toTarget, ⟨"A", ["U"]⟩⟩] }
  obtain ⟨drawing, hdrawing⟩ : ∃ drawing, m.drawing .standard (.constant 10 10) = .ok drawing := by
    apply Except.exists_eq_ok_of_isOk
    decide +kernel
  obtain ⟨layout, hlayout, hcovers⟩ := ((covers_or_degenerate m).2 _ _).2 drawing hdrawing
  have hcontexts := hcovers.layout_covers.contexts.length_eq.trans hcovers.contexts_show.length_eq
  have hlinks := hcovers.links_standFor.length_eq.trans hcovers.links_show.length_eq
  exact ⟨m, layout, drawing, rfl, rfl, hlayout, hdrawing, hcontexts.symm, hlinks.symm, hcovers⟩

end ContextDiagram
