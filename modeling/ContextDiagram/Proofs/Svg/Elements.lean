import Mathlib.Tactic.Ring
import ContextDiagram.Diagram
import ContextDiagram.Proofs.Outcome
import ContextDiagram.Proofs.Svg.Outline

namespace ContextDiagram

open Markup Svg

/-- A text is read as the elements for a drawing, with or without a background, and as nothing else.
The line ends in the contents are those in front of the two children of an element for a string, of
which the first one is empty, and the one in front of the closing tag. -/
structure Drawing.IsShownBy (d : Drawing) (hasBackground : Bool) (text : String) (root : Item) :
    Prop where
  read : Markup.read text = some root
  outline : (d.outline hasBackground).items = [root.restrict outlineKeys]
  keys : root.keys ⊆ attributeKeys
  contents : root.contents = d.texts.map fun s => "\n\n" ++ s ++ "\n"
  ellipses : occurrences "<ellipse" text = d.contexts.length
  paths : occurrences "<path" text = d.links.length + 2
  rectangles : occurrences "<rect" text =
    (if hasBackground then 1 else 0) + d.endpoints.countP (·.label.box.isSome)
  texts : occurrences "<text" text =
    d.contexts.length + d.links.countP (·.middle.isSome) +
      d.endpoints.countP (·.label.box.isSome) + d.endpoints.countP (·.label.body.isSome)
  groups : occurrences "<g" text = d.links.length + d.endpoints.length + d.contexts.length

namespace Svg

section

variable (s family : String)

def weight (name : String) : Nat :=
  if s.toList.isPrefixOf name.toList then 1 else 0

theorem countAll_eq_sum (nodes : List Node) :
    countAll s nodes = (nodes.map (Node.count s)).sum := by
  induction nodes with
  | nil => rfl
  | cons node nodes ih => rw [countAll, ih, List.map_cons, List.sum_cons]

theorem count_element (name : String) (attributes : List (String × String))
    (children : List Node) :
    (Node.element name attributes children).count s =
      weight s name + (children.map (Node.count s)).sum := by
  rw [Node.count, countAll_eq_sum, weight]

theorem count_leaf (name : String) (attributes : List (String × String)) :
    (Node.element name attributes []).count s = weight s name :=
  count_element s name attributes []

theorem count_textOutline (content : String) :
    (textOutline family content).count s = weight s "text" := by
  rw [textOutline, count_element]
  rfl

theorem sum_count_boxOutline (content : String) :
    ((boxOutline family content).map (Node.count s)).sum = weight s "rect" + weight s "text" := by
  rw [boxOutline, List.map_cons, List.map_singleton, count_textOutline, count_leaf, List.sum_pair]

theorem count_endpointOutline (e : EndpointText) :
    (endpointOutline family e).count s = weight s "g" +
      ((if e.label.box.isSome then weight s "rect" + weight s "text" else 0) +
        if e.label.body.isSome then weight s "text" else 0) := by
  rw [endpointOutline, count_element, List.map_append, List.sum_append]
  congr 2
  · cases e.label.box with
    | none => rfl
    | some content =>
      rw [Option.toList_some, List.flatMap_singleton, sum_count_boxOutline]
      rfl
  · cases e.label.body with
    | none => rfl
    | some content =>
      rw [Option.toList_some, List.map_singleton, List.map_singleton, List.sum_singleton,
        count_textOutline]
      rfl

theorem sum_count_endpointOutline (endpoints : List EndpointText) :
    ((endpoints.map (endpointOutline family)).map (Node.count s)).sum =
      endpoints.length * weight s "g" +
        endpoints.countP (·.label.box.isSome) * (weight s "rect" + weight s "text") +
        endpoints.countP (·.label.body.isSome) * weight s "text" := by
  induction endpoints with
  | nil => simp
  | cons e es ih =>
    rw [List.map_cons, List.map_cons, List.sum_cons, ih, count_endpointOutline,
      List.length_cons, List.countP_cons, List.countP_cons]
    split <;> split <;> ring

theorem count_linkOutline (l : LinkShape) :
    (linkOutline family l).count s = weight s "g" +
      (weight s "path" + (if l.middle.isSome then weight s "text" else 0) +
        ((l.endpoints.map (endpointOutline family)).map (Node.count s)).sum) := by
  rw [linkOutline, count_element, List.map_append, List.sum_append, List.map_cons,
    List.sum_cons, count_leaf]
  congr 3
  cases l.middle with
  | none => rfl
  | some m =>
    rw [Option.toList_some, List.map_singleton, List.map_singleton, List.sum_singleton,
      count_textOutline]
    rfl

theorem sum_count_linkOutline (links : List LinkShape) :
    ((links.map (linkOutline family)).map (Node.count s)).sum =
      links.length * (weight s "g" + weight s "path") +
        links.countP (·.middle.isSome) * weight s "text" +
        (((links.flatMap LinkShape.endpoints).map (endpointOutline family)).map
          (Node.count s)).sum := by
  induction links with
  | nil => simp
  | cons l ls ih =>
    rw [List.map_cons, List.map_cons, List.sum_cons, ih, count_linkOutline,
      List.length_cons, List.countP_cons, List.flatMap_cons, List.map_append, List.map_append,
      List.sum_append]
    split <;> ring

theorem sum_count_contextOutline (contexts : List ContextShape) :
    ((contexts.map (contextOutline family)).map (Node.count s)).sum =
      contexts.length * (weight s "g" + weight s "ellipse" + weight s "text") := by
  have hc : Node.count s ∘ contextOutline family =
      fun _ => weight s "g" + weight s "ellipse" + weight s "text" := by
    funext c
    rw [Function.comp_apply, contextOutline, count_element, List.map_cons, List.map_singleton,
      count_leaf, count_textOutline, List.sum_pair, Nat.add_assoc]
  rw [List.map_map, hc, List.map_const', List.sum_replicate_nat]

theorem count_outline (d : Drawing) (hasBackground : Bool) :
    (d.outline hasBackground).count s =
      weight s "svg" + weight s "defs" + 2 * weight s "marker" + 2 * weight s "path" +
        (if hasBackground then weight s "rect" else 0) +
        d.links.length * (weight s "g" + weight s "path") +
        d.links.countP (·.middle.isSome) * weight s "text" +
        (d.endpoints.length * weight s "g" +
          d.endpoints.countP (·.label.box.isSome) * (weight s "rect" + weight s "text") +
          d.endpoints.countP (·.label.body.isSome) * weight s "text") +
        d.contexts.length * (weight s "g" + weight s "ellipse" + weight s "text") := by
  have hm (id : String) : (markerOutline id).count s = weight s "marker" + weight s "path" := by
    rw [markerOutline, count_element, List.map_singleton, List.sum_singleton, count_leaf]
  have hd : (Node.element "defs" [] [markerOutline endMarker, markerOutline startMarker]).count s =
      weight s "defs" + 2 * (weight s "marker" + weight s "path") := by
    rw [count_element, List.map_cons, List.map_singleton, List.sum_pair, hm, hm, two_mul]
  have hb : ((if hasBackground then [Node.element "rect" [] []] else []).map
      (Node.count s)).sum = if hasBackground then weight s "rect" else 0 := by
    cases hasBackground with
    | false => rfl
    | true => rw [if_pos rfl, if_pos rfl, List.map_singleton, List.sum_singleton, count_leaf]
  rw [Drawing.outline, count_element, List.map_append, List.sum_append, hb, List.map_cons,
    List.sum_cons, hd, List.map_append, List.sum_append, sum_count_linkOutline,
    sum_count_endpointOutline, sum_count_contextOutline, Drawing.endpoints]
  ring

end

section

variable (family : String)

def onLines (content : String) : String :=
  "\n\n" ++ content ++ "\n"

theorem contents_textOutline (content : String) :
    contentsOfAll (textOutline family content).items = [onLines content] := by
  have hcharacters : (content.toList.map Item.character).filterMap Item.character? =
      content.toList := by
    rw [List.filterMap_map]
    exact List.filterMap_some
  have hitems : itemsOfLines [.text "", .text content] =
      .character '\n' :: .character '\n' ::
        (content.toList.map .character ++ [.character '\n']) := rfl
  have honLines : (onLines content).toList = '\n' :: '\n' :: (content.toList ++ ['\n']) := by
    simp [onLines]
  rw [textOutline, Node.items, hitems, contentsOfAll, Item.contents, if_pos rfl, contentsOfAll,
    List.append_nil, ← String.ofList_toList (s := onLines content), honLines]
  simp only [List.filterMap_cons, List.filterMap_append, hcharacters, Item.character?,
    List.filterMap_nil]

theorem contents_endpointOutline (e : EndpointText) :
    contentsOfAll (endpointOutline family e).items = e.texts.map onLines := by
  rw [endpointOutline, contentsOfAll_items (by decide), List.flatMap_append, EndpointText.texts,
    List.map_append]
  congr 1
  · cases e.label.box with
    | none => rfl
    | some content => exact contents_textOutline family content
  · cases e.label.body with
    | none => rfl
    | some content =>
      rw [Option.toList_some, List.map_singleton, List.flatMap_singleton, contents_textOutline]
      rfl

theorem contents_linkOutline (l : LinkShape) :
    contentsOfAll (linkOutline family l).items = l.texts.map onLines := by
  rw [linkOutline, contentsOfAll_items (by decide), List.flatMap_append, List.flatMap_cons,
    LinkShape.texts, List.map_append, List.flatMap_map, List.flatMap_map, List.map_flatMap]
  congr 1
  · cases l.middle with
    | none => rfl
    | some m => exact contents_textOutline family m.2
  · exact List.flatMap_congr fun e _ => contents_endpointOutline family e

theorem contents_contextOutline (c : ContextShape) :
    contentsOfAll (contextOutline family c).items = [onLines c.label] := by
  rw [contextOutline, contentsOfAll_items (by decide), List.flatMap_cons, List.flatMap_singleton,
    contents_textOutline]
  rfl

theorem contents_outline (d : Drawing) (hasBackground : Bool) :
    contentsOfAll (d.outline hasBackground).items = d.texts.map onLines := by
  have hb : (if hasBackground then [Node.element "rect" [] []] else []).flatMap
      (fun child => contentsOfAll child.items) = [] := by
    cases hasBackground <;> rfl
  have hd : contentsOfAll (Node.element "defs" [] [markerOutline endMarker,
      markerOutline startMarker]).items = [] := rfl
  rw [Drawing.outline, contentsOfAll_items (by decide), List.flatMap_append, hb, List.flatMap_cons,
    hd, List.flatMap_append, List.flatMap_map, List.flatMap_map, Drawing.texts, List.map_append,
    List.map_flatMap, List.flatMap_congr fun l _ => contents_linkOutline d.font.family l,
    List.flatMap_congr fun c _ => contents_contextOutline d.font.family c, List.map_map,
    ← List.map_eq_flatMap]
  rfl

end

section

variable {palette : Palette}

theorem background_of_palette {style : Style} (h : style.palette = .ok palette) :
    palette.background.isSome = style.background.isSome := by
  rw [Style.palette, Except.bind_eq_ok_iff] at h
  obtain ⟨background, hb, h⟩ := h
  obtain ⟨nodeFill, -, h⟩ := Except.bind_eq_ok_iff.1 h
  obtain ⟨line, -, h⟩ := Except.bind_eq_ok_iff.1 h
  cases h
  rw [Style.colour?, Style.text?] at hb
  cases hs : style.background with
  | none =>
    rw [hs] at hb
    cases hb
    rfl
  | some source =>
    rw [hs] at hb
    dsimp only at hb
    cases hc : Colour.read source with
    | ok colour =>
      rw [hc] at hb
      cases hb
      rfl
    | error fault =>
      rw [hc] at hb
      cases hb

/-- No name of an element begins another one. -/
theorem weight_eq {s name : String} (hs : s ∈ elementNames) (hn : name ∈ elementNames) :
    weight s name = if s = name then 1 else 0 := by
  have h : ∀ s ∈ elementNames, ∀ name ∈ elementNames,
      weight s name = if s = name then 1 else 0 := by decide
  exact h s hs name hn

theorem isPlain_document (palette : Palette) (d : Drawing) : (document palette d).IsPlain :=
  (usesOnly_document palette d).isPlain (by decide) fun _ h => isNameChar_of_mem h

theorem exists_read_document (palette : Palette) (d : Drawing) :
    ∃ root, (document palette d).items = [root] ∧ read (render palette d) = some root :=
  exists_read_render (isPlain_document palette d)

theorem items_outline {palette : Palette} {d : Drawing} {root : Item}
    (h : (document palette d).items = [root]) :
    (d.outline palette.background.isSome).items = [root.restrict outlineKeys] := by
  rw [← restrict_document, items_restrict, h]
  rfl

theorem contents_document {palette : Palette} {d : Drawing} {root : Item}
    (h : (document palette d).items = [root]) : root.contents = d.texts.map onLines := by
  have hcontents := contents_outline d palette.background.isSome
  rwa [items_outline h, contentsOfAll, contents_restrict, contentsOfAll, List.append_nil]
    at hcontents

theorem occurrences_render {name : String} (hn : name ∈ elementNames) (palette : Palette)
    (d : Drawing) :
    occurrences ("<" ++ name) (render palette d) =
      (d.outline palette.background.isSome).count name := by
  have hne : name ≠ "" := by
    rintro rfl
    exact absurd hn (by decide)
  rw [render, occurrences_eq_countP hne (isNameChar_of_mem (List.mem_append_left _ hn))
    (readPieces_render_eq (isPlain_document palette d)), countP_pieces, ← restrict_document,
    count_restrict]

end

end Svg

/-- The strings of a drawing and of a style change nothing about the elements of the diagram. -/
theorem Drawing.isShownBy_svg (d : Drawing) (style : Style) {palette : Palette}
    (h : style.palette = .ok palette) :
    ∃ text root, d.svg style = .ok text ∧ d.IsShownBy style.background.isSome text root := by
  obtain ⟨root, hitems, hread⟩ := exists_read_document palette d
  refine ⟨render palette d, root, ?_, ?_⟩
  · rw [Drawing.svg, h]
    rfl
  rw [← background_of_palette h]
  have hcount (name : String) (hn : name ∈ elementNames) :=
    (occurrences_render hn palette d).trans (count_outline name d _)
  constructor
  case read => exact hread
  case outline => exact items_outline hitems
  case keys =>
    have hkeys := (usesOnly_document palette d).keysOfAll_subset
    rwa [hitems, keysOfAll, keysOfAll, List.append_nil] at hkeys
  case contents => exact contents_document hitems
  case ellipses => simpa (disch := decide) [weight_eq] using hcount "ellipse" (by decide)
  case paths =>
    have h := hcount "path" (by decide)
    simp (disch := decide) [weight_eq] at h
    omega
  case rectangles => simpa (disch := decide) [weight_eq] using hcount "rect" (by decide)
  case texts =>
    have h := hcount "text" (by decide)
    simp (disch := decide) [weight_eq] at h
    omega
  case groups => simpa (disch := decide) [weight_eq] using hcount "g" (by decide)

def markupDrawing : Drawing where
  viewBox := .centered ⟨100, 100⟩
  font := { Text.Font.standard with family := "<g>" }
  contexts := [⟨"A", ⟨0, 0⟩, ⟨10, 10⟩, "</text></g>", ⟨0, 0⟩⟩]
  links :=
    [{ path := "M 0,0 L 1,1", direction := .toBoth, middle := some (⟨0, 0⟩, "<text>"),
       source := some ⟨⟨0, 0⟩, ⟨some "<rect/>", some "&lt;"⟩⟩, target := none }]

theorem isShownBy_svg_markupDrawing :
    ({} : Style).palette = .ok ⟨none, .white, .black⟩ ∧
      ∃ text root, markupDrawing.svg {} = .ok text ∧ markupDrawing.IsShownBy false text root :=
  ⟨rfl, markupDrawing.isShownBy_svg {} rfl⟩

def labelDrawing : Drawing where
  viewBox := .centered ⟨100, 100⟩
  font := .standard
  contexts := [⟨"A", ⟨0, 0⟩, ⟨10, 10⟩, "A", ⟨0, 0⟩⟩]
  links := []

/-- A label is not read alone: line ends are written in front of it and behind it. -/
theorem exists_contents_ne_texts :
    ∃ text root, labelDrawing.svg {} = .ok text ∧ read text = some root ∧
      root.contents ≠ labelDrawing.texts := by
  obtain ⟨root, hitems, hread⟩ := exists_read_document ⟨none, .white, .black⟩ labelDrawing
  refine ⟨render ⟨none, .white, .black⟩ labelDrawing, root, rfl, hread, ?_⟩
  rw [contents_document hitems]
  decide

end ContextDiagram
