import ContextDiagram.ContextMap
import ContextDiagram.Plane.Basic
import ContextDiagram.Text.Measure

namespace ContextDiagram.Layout

open Plane Text

structure Options (α : Type) where
  canvas : Size α
  font : Font α
  measure : Measure α
  padding : Spacing α
  margin : Spacing α

/-- A context with the size of its ellipse, the place of its label relative to its centre, and the
centre once it has been placed. -/
structure SizedContext (α : Type) where
  id : String
  label : String
  size : Size α
  labelOffset : Point α
  center : Option (Point α)
deriving Repr

section

variable {α : Type} [Scalar α]

def SizedContext.radii (c : SizedContext α) : Size α :=
  c.size.halves

/-- A context in the size that its label asks for. The label starts half of its width left of the
centre, and its base line lies a quarter of its height below. -/
def SizedContext.ofContext (options : Options α) (c : BoundedContext) : SizedContext α :=
  let width := options.measure.width c.displayLabel options.font
  let height := options.measure.height c.displayLabel options.font
  { id := c.id
    label := c.displayLabel
    size := ⟨options.padding.horizontal + width, options.padding.vertical + height⟩
    labelOffset := ⟨Scalar.half (-width), height / Scalar.ofNat 4⟩
    center := none }

end

end ContextDiagram.Layout
