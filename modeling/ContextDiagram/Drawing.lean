import ContextDiagram.Layout
import ContextDiagram.Number.Shortest

namespace ContextDiagram

open Plane Layout

structure ContextShape where
  id : String
  center : Point Float32
  radii : Size Float32
  label : String
  labelOffset : Point Float32
deriving Repr

/-- The texts at one end of a link, which is never empty of both. -/
structure EndpointText where
  anchor : Point Float32
  label : EndpointLabel
deriving Repr

structure LinkShape where
  path : String
  direction : Direction
  middle : Option (Point Float32 × String)
  source : Option EndpointText
  target : Option EndpointText
deriving Repr

structure Drawing where
  viewBox : Rectangle Float32
  font : Text.Font Float32
  contexts : List ContextShape
  links : List LinkShape
deriving Repr

/-- A point in writing, such as `10,-2.5`. -/
def Plane.Point.text (p : Point Float32) : String :=
  Number.text p.x ++ "," ++ Number.text p.y

def Plane.Rectangle.text (separator : String) (r : Rectangle Float32) : String :=
  separator.intercalate
    [Number.text r.corner.x, Number.text r.corner.y, Number.text r.size.width,
      Number.text r.size.height]

/-- The outline of a link in the notation of paths: a line, or an arc of a circle with the flags for
the shorter arc and for turning clockwise on a canvas whose `y` grows downwards. -/
def Layout.Link.path (l : Link Float32) : String :=
  let middle := match l.curve with
    | .straight => " L "
    | .arc radius => " A " ++ Number.text radius ++ "," ++ Number.text radius ++ " 0 0,1 "
  "M " ++ l.sourceAnchor.text ++ middle ++ l.targetAnchor.text

def EndpointText.of? (anchor : Point Float32) (label : EndpointLabel) : Option EndpointText :=
  if label.isEmpty then none else some ⟨anchor, label⟩

def Layout.SizedContext.shape? (c : SizedContext Float32) : Option ContextShape :=
  c.center.map fun center =>
    { id := c.id, center := center, radii := c.radii, label := c.label,
      labelOffset := c.labelOffset }

def Layout.Link.shape (l : Link Float32) : LinkShape where
  path := l.path
  direction := l.direction
  middle := l.labels.middleText.map fun text => (l.labelAnchor, text)
  source := EndpointText.of? l.sourceAnchor l.labels.source
  target := EndpointText.of? l.targetAnchor l.labels.target

def Drawing.ofLayout (layout : MapLayout Float32) (font : Text.Font Float32) : Drawing where
  viewBox := .centered layout.canvas
  font := font
  contexts := layout.contexts.filterMap SizedContext.shape?
  links := layout.links.map Link.shape

end ContextDiagram
