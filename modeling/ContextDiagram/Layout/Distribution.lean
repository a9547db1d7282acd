import ContextDiagram.Layout.Rows
import ContextDiagram.Layout.Sizing

namespace ContextDiagram.Layout

open Plane

inductive DistributionFault (α : Type)
  | invalidCanvas (canvas : Size α)
  | invalidMargin (margin : Spacing α)
  | invalidSize (id : String) (size : Size α)
  /-- A row is too wide; it is named after its first context. -/
  | tooWide (id : String) (width canvasWidth : α)
  | tooHigh (rows : Nat) (height canvasHeight : α)
deriving Repr

variable {α : Type} [Scalar α]

/-- Checks the canvas, the margin and the sizes, in this order. -/
def validate (contexts : List (SizedContext α)) (canvas : Size α) (margin : Spacing α) :
    Except (DistributionFault α) Unit :=
  if !canvas.isPositive then .error (.invalidCanvas canvas)
  else if !margin.isValid then .error (.invalidMargin margin)
  else
    match contexts.find? fun c => !c.size.isValid with
    | some c => .error (.invalidSize c.id c.size)
    | none => .ok ()

def totalHeight (rows : List (Row α)) : α :=
  Scalar.sum (rows.map Row.height)

def checkFits (rows : List (Row α)) (canvas : Size α) : Except (DistributionFault α) Unit :=
  match rows.find? fun r => Scalar.lt canvas.width r.width with
  | some r => .error (.tooWide r.first.id r.width canvas.width)
  | none =>
    if Scalar.lt canvas.height (totalHeight rows) then
      .error (.tooHigh rows.length (totalHeight rows) canvas.height)
    else .ok ()

def SizedContext.cell (margin : Spacing α) (c : SizedContext α) : Cell α where
  id := c.id
  size := c.size.grow margin

def SizedContext.placeAt (c : SizedContext α) (p : Point α) : SizedContext α :=
  { c with center := some p }

def rowsOf (contexts : List (SizedContext α)) (canvas : Size α) (margin : Spacing α) :
    List (Row α) :=
  splitRows (rowCapacity contexts.length) canvas.width (contexts.map (·.cell margin))

def centersOf (rows : List (Row α)) : List (Point α) :=
  stackCenters (Scalar.half (totalHeight rows)) rows

/-- The contexts, each at its place. The rows are centred on the origin, the first one at the
largest `y`. -/
def distribute (contexts : List (SizedContext α)) (canvas : Size α) (margin : Spacing α) :
    Except (DistributionFault α) (List (SizedContext α)) := do
  validate contexts canvas margin
  let rows := rowsOf contexts canvas margin
  checkFits rows canvas
  return contexts.zipWith SizedContext.placeAt (centersOf rows)

end ContextDiagram.Layout
