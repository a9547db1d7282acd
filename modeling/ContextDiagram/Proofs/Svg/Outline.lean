import ContextDiagram.Proofs.Markup.Content
import ContextDiagram.Svg

namespace ContextDiagram

open Markup

def LinkShape.endpoints (l : LinkShape) : List EndpointText :=
  l.source.toList ++ l.target.toList

def EndpointText.texts (e : EndpointText) : List String :=
  e.label.box.toList ++ e.label.body.toList

def LinkShape.texts (l : LinkShape) : List String :=
  l.middle.toList.map Prod.snd ++ l.endpoints.flatMap EndpointText.texts

def Drawing.endpoints (d : Drawing) : List EndpointText :=
  d.links.flatMap LinkShape.endpoints

/-- All strings that a drawing shows, in the order of their shapes. -/
def Drawing.texts (d : Drawing) : List String :=
  d.links.flatMap LinkShape.texts ++ d.contexts.map ContextShape.label

namespace Svg

section

variable (family : String)

def textOutline (content : String) : Node :=
  .element "text" [("font-family", family)] [.text "", .text content]

def boxOutline (content : String) : List Node :=
  [.element "rect" [] [], textOutline family content]

def endpointOutline (e : EndpointText) : Node :=
  .element "g" [("class", "endpoint")]
    (e.label.box.toList.flatMap (boxOutline family) ++ e.label.body.toList.map (textOutline family))

def linkOutline (l : LinkShape) : Node :=
  .element "g" [("class", "link")]
    (.element "path" [] [] :: (l.middle.toList.map fun m => textOutline family m.2) ++
      l.endpoints.map (endpointOutline family))

def contextOutline (c : ContextShape) : Node :=
  .element "g" [("class", "node")] [.element "ellipse" [] [], textOutline family c.label]

def markerOutline (id : String) : Node :=
  .element "marker" [("id", id), ("viewBox", "0 0 10 10")] [.element "path" [] []]

end

def outlineKeys : List String :=
  ["class", "font-family", "id", "viewBox"]

end Svg

open Svg

/-- The document of a drawing as far as its elements are concerned. -/
def Drawing.outline (d : Drawing) (hasBackground : Bool) : Node :=
  .element "svg" [("viewBox", d.viewBox.text " ")]
    ((if hasBackground then [.element "rect" [] []] else []) ++
      .element "defs" [] [markerOutline endMarker, markerOutline startMarker] ::
        (d.links.map (linkOutline d.font.family) ++ d.contexts.map (contextOutline d.font.family)))

namespace Svg

def elementNames : List String :=
  ["defs", "ellipse", "g", "marker", "path", "rect", "svg", "text"]

def attributeKeys : List String :=
  ["class", "cx", "cy", "d", "fill", "fill-opacity", "font-family", "font-size", "font-weight",
    "height", "id", "marker-end", "marker-start", "markerHeight", "markerWidth", "orient", "refX",
    "refY", "rx", "ry", "stroke", "stroke-width", "text-anchor", "transform", "viewBox", "width",
    "x", "xmlns", "y"]

def placementKeys : List String :=
  ["text-anchor", "x", "y"]

section

variable (palette : Palette) (font : Text.Font Float32)

theorem restrict_textElement {placement : List (String × String)}
    (h : placement.map Prod.fst ⊆ placementKeys) (content : String) :
    (textElement font placement content).restrict outlineKeys =
      textOutline font.family content := by
  have hk : ∀ key ∈ placementKeys, key ∉ outlineKeys := by decide
  have hp : placement.filter (·.1 ∈ outlineKeys) = [] :=
    List.filter_eq_nil_iff.2 fun a ha =>
      decide_eq_true_iff.not.2 (hk _ (h (List.mem_map_of_mem ha)))
  rw [textElement, Node.restrict, List.filter_append, hp]
  rfl

theorem restrict_boxElements (content : String) :
    (boxElements palette font content).map (Node.restrict outlineKeys) =
      boxOutline font.family content := by
  rw [boxElements, List.map_cons, List.map_singleton, restrict_textElement font (by decide)]
  rfl

theorem restrict_endpoint (e : EndpointText) :
    (endpoint palette font e).restrict outlineKeys = endpointOutline font.family e := by
  rw [endpoint, Node.restrict, restrictAll_eq_map, List.map_append, endpointOutline]
  congr 2
  · cases e.label.box with
    | none => rfl
    | some content =>
      rw [Option.toList_some, List.flatMap_singleton]
      exact restrict_boxElements palette font content
  · cases e.label.body with
    | none => rfl
    | some content =>
      rw [Option.toList_some, List.map_singleton, List.map_singleton,
        restrict_textElement font (by simp [placementKeys])]

theorem restrict_linkPath (l : LinkShape) :
    (linkPath palette l).restrict outlineKeys = .element "path" [] [] := by
  rw [linkPath]
  cases l.direction <;> rfl

theorem restrict_link (l : LinkShape) :
    (link palette font l).restrict outlineKeys = linkOutline font.family l := by
  rw [link, Node.restrict, restrictAll_eq_map, List.map_append, List.map_cons, restrict_linkPath,
    List.map_map, linkOutline]
  congr 2
  · cases l.middle with
    | none => rfl
    | some m =>
      obtain ⟨p, content⟩ := m
      rw [Option.toList_some, List.map_singleton, List.map_singleton,
        restrict_textElement font (by simp [placementKeys])]
  · exact List.map_congr_left fun e _ => restrict_endpoint palette font e

theorem restrict_context (c : ContextShape) :
    (context palette font c).restrict outlineKeys = contextOutline font.family c := by
  rw [context, Node.restrict, restrictAll_eq_map, List.map_cons, List.map_singleton,
    restrict_textElement font (by simp [placementKeys])]
  rfl

theorem restrict_document (d : Drawing) :
    (document palette d).restrict outlineKeys = d.outline palette.background.isSome := by
  have hl : Node.restrict outlineKeys ∘ link palette d.font = linkOutline d.font.family :=
    funext (restrict_link palette d.font)
  have hc : Node.restrict outlineKeys ∘ context palette d.font = contextOutline d.font.family :=
    funext (restrict_context palette d.font)
  rw [document, Node.restrict, restrictAll_eq_map, List.map_append, List.map_cons, List.map_append,
    List.map_map, List.map_map, hl, hc, Drawing.outline]
  cases palette.background <;> rfl

end

theorem isNameChar_of_mem {s : String} (h : s ∈ elementNames ++ attributeKeys) :
    ∀ c ∈ s.toList, isNameChar c := by
  have hall : ∀ s ∈ elementNames ++ attributeKeys, s.toList.all isNameChar := by decide
  exact List.all_eq_true.1 (hall s h)

section

variable (palette : Palette) (font : Text.Font Float32)

theorem usesOnly_textElement {placement : List (String × String)}
    (h : placement.map Prod.fst ⊆ placementKeys) (content : String) :
    (textElement font placement content).UsesOnly elementNames attributeKeys := by
  refine .element (by decide) ?_ ?_
  · rw [List.map_append]
    exact List.append_subset.2 ⟨by simp [attributeKeys], List.Subset.trans h (by decide)⟩
  · exact List.forall_mem_cons.2 ⟨.text _, List.forall_mem_singleton.2 (.text _)⟩

theorem usesOnly_of_mem_boxElements (content : String) :
    ∀ node ∈ boxElements palette font content, node.UsesOnly elementNames attributeKeys := by
  refine List.forall_mem_cons.2 ⟨.element (by decide) (by simp [attributeKeys]) nofun, ?_⟩
  exact List.forall_mem_singleton.2 (usesOnly_textElement font (by simp [placementKeys]) content)

theorem usesOnly_endpoint (e : EndpointText) :
    (endpoint palette font e).UsesOnly elementNames attributeKeys := by
  refine .element (by decide) (by simp [attributeKeys]) (List.forall_mem_append.2 ⟨?_, ?_⟩)
  · cases e.label.box with
    | none => exact nofun
    | some content => exact usesOnly_of_mem_boxElements palette font content
  · cases e.label.body with
    | none => exact nofun
    | some content =>
      exact List.forall_mem_singleton.2
        (usesOnly_textElement font (by simp [placementKeys]) content)

theorem usesOnly_linkPath (l : LinkShape) :
    (linkPath palette l).UsesOnly elementNames attributeKeys := by
  refine .element (by decide) ?_ nofun
  cases l.direction <;> simp [attributeKeys, Direction.pointsAtTarget, Direction.pointsAtSource]

theorem usesOnly_link (l : LinkShape) :
    (link palette font l).UsesOnly elementNames attributeKeys := by
  refine .element (by decide) (by simp [attributeKeys]) (List.forall_mem_append.2 ⟨?_, ?_⟩)
  · refine List.forall_mem_cons.2 ⟨usesOnly_linkPath palette l, ?_⟩
    cases l.middle with
    | none => exact nofun
    | some m =>
      exact List.forall_mem_singleton.2 (usesOnly_textElement font (by simp [placementKeys]) m.2)
  · exact List.forall_mem_map.2 fun e _ => usesOnly_endpoint palette font e

theorem usesOnly_context (c : ContextShape) :
    (context palette font c).UsesOnly elementNames attributeKeys := by
  refine .element (by decide) (by simp [attributeKeys]) (List.forall_mem_cons.2 ⟨?_, ?_⟩)
  · exact .element (by decide) (by simp [attributeKeys]) nofun
  · exact List.forall_mem_singleton.2 (usesOnly_textElement font (by simp [placementKeys]) c.label)

theorem usesOnly_arrowHead (id tip path : String) (colour : Colour) :
    (arrowHead id tip path colour).UsesOnly elementNames attributeKeys := by
  refine .element (by decide) (by simp [attributeKeys]) (List.forall_mem_singleton.2 ?_)
  exact .element (by decide) (by simp [attributeKeys]) nofun

theorem usesOnly_document (d : Drawing) :
    (document palette d).UsesOnly elementNames attributeKeys := by
  refine .element (by decide) (by simp [attributeKeys]) (List.forall_mem_append.2 ⟨?_, ?_⟩)
  · cases palette.background with
    | none => exact nofun
    | some colour =>
      exact List.forall_mem_singleton.2
        (.element (by decide) (by simp [attributeKeys]) nofun)
  · refine List.forall_mem_cons.2 ⟨.element (by decide) (List.nil_subset _) ?_,
      List.forall_mem_append.2 ⟨?_, ?_⟩⟩
    · exact List.forall_mem_cons.2 ⟨usesOnly_arrowHead ..,
        List.forall_mem_singleton.2 (usesOnly_arrowHead ..)⟩
    · exact List.forall_mem_map.2 fun l _ => usesOnly_link palette d.font l
    · exact List.forall_mem_map.2 fun c _ => usesOnly_context palette d.font c

end

end Svg

end ContextDiagram
