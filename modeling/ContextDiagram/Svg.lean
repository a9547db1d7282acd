import ContextDiagram.Drawing
import ContextDiagram.Markup.Element
import ContextDiagram.Style

namespace ContextDiagram.Svg

open Plane Layout Markup Number

def startMarker : String :=
  "ctxmap-arrow-start"

def endMarker : String :=
  "ctxmap-arrow-end"

/-- The distance of a text from the frame of its box. -/
def boxPadding : Float32 :=
  3

/-- The width of a character, as a share of the font size, by which boxes are sized. -/
def glyphWidth : Float32 :=
  0.6

/-- A text set in a font; `placement` holds the attributes that follow those of the font. -/
def textElement (font : Text.Font Float32) (placement : List (String × String))
    (content : String) : Node :=
  .element "text"
    ([("font-family", font.family), ("font-size", text font.size),
      ("font-weight", toString font.weight)] ++ placement)
    [.text "", .text content]

def moveTo (p : Point Float32) : String :=
  "translate(" ++ p.text ++ ")"

def arrowHead (id tip path : String) (colour : Colour) : Node :=
  .element "marker"
    [("id", id), ("markerHeight", "6"), ("markerWidth", "6"), ("orient", "auto"), ("refX", tip),
      ("refY", "5"), ("viewBox", "0 0 10 10")]
    [.element "path" [("d", path), ("fill", colour.text)] []]

def definitions (colour : Colour) : Node :=
  .element "defs" []
    [arrowHead endMarker "9" "M 0 0 L 10 5 L 0 10 z" colour,
      arrowHead startMarker "1" "M 10 0 L 0 5 L 10 10 z" colour]

def background (viewBox : Rectangle Float32) (colour : Colour) : Node :=
  .element "rect"
    [("fill", colour.text), ("fill-opacity", text colour.alpha),
      ("height", text viewBox.size.height), ("width", text viewBox.size.width),
      ("x", text viewBox.corner.x), ("y", text viewBox.corner.y)] []

def boxWidth (font : Text.Font Float32) (content : String) : Float32 :=
  Float32.ofNat content.length * font.size * glyphWidth + 2 * boxPadding

def boxHeight (font : Text.Font Float32) : Float32 :=
  font.size + 2 * boxPadding

def boxElements (palette : Palette) (font : Text.Font Float32) (content : String) : List Node :=
  [.element "rect"
    [("fill", palette.nodeFill.text), ("height", text (boxHeight font)),
      ("stroke", palette.line.text), ("width", text (boxWidth font content)), ("x", "0"),
      ("y", text (-boxHeight font))] [],
    textElement font [("x", text boxPadding), ("y", text (-boxPadding))] content]

/-- The texts at one end of a link. The body starts beside the box, or where the box would. -/
def endpoint (palette : Palette) (font : Text.Font Float32) (e : EndpointText) : Node :=
  let box := match e.label.box with
    | some content => boxElements palette font content
    | none => []
  let bodyX : Float32 := match e.label.box with
    | some content => boxWidth font content + boxPadding
    | none => 0
  let body := match e.label.body with
    | some content => [textElement font [("x", text bodyX), ("y", text (-boxPadding))] content]
    | none => []
  .element "g" [("class", "endpoint"), ("transform", moveTo e.anchor)] (box ++ body)

def linkPath (palette : Palette) (l : LinkShape) : Node :=
  let reference (key id : String) := (key, "url(#" ++ id ++ ")")
  .element "path"
    ([("d", l.path), ("fill", "none")] ++
      (if l.direction.pointsAtTarget then [reference "marker-end" endMarker] else []) ++
      (if l.direction.pointsAtSource then [reference "marker-start" startMarker] else []) ++
      [("stroke", palette.line.text), ("stroke-width", "1")]) []

def link (palette : Palette) (font : Text.Font Float32) (l : LinkShape) : Node :=
  let middle := match l.middle with
    | some (p, content) =>
      [textElement font [("text-anchor", "middle"), ("x", text p.x), ("y", text p.y)] content]
    | none => []
  let ends := (l.source.toList ++ l.target.toList).map (endpoint palette font)
  .element "g" [("class", "link")] (linkPath palette l :: middle ++ ends)

def context (palette : Palette) (font : Text.Font Float32) (c : ContextShape) : Node :=
  let ellipse := .element "ellipse"
    [("cx", "0"), ("cy", "0"), ("fill", palette.nodeFill.text),
      ("fill-opacity", text palette.nodeFill.alpha), ("rx", text c.radii.width),
      ("ry", text c.radii.height), ("stroke", palette.line.text), ("stroke-width", "1")] []
  let label := textElement font
    [("x", text c.labelOffset.x), ("y", text c.labelOffset.y)] c.label
  .element "g" [("class", "node"), ("transform", moveTo c.center)] [ellipse, label]

/-- A background if the palette has one, two arrow heads to refer to, then the links, and the
ellipses on top of them. The attributes of every element are in alphabetical order. -/
def document (palette : Palette) (d : Drawing) : Node :=
  .element "svg"
    [("height", text d.viewBox.size.height), ("viewBox", d.viewBox.text " "),
      ("width", text d.viewBox.size.width), ("xmlns", "http://www.w3.org/2000/svg")]
    ((palette.background.map (background d.viewBox)).toList ++ definitions palette.line ::
      (d.links.map (link palette d.font) ++ d.contexts.map (context palette d.font)))

def render (palette : Palette) (d : Drawing) : String :=
  (document palette d).render

end ContextDiagram.Svg
