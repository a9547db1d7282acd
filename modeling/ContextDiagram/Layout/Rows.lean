import ContextDiagram.Plane.Basic

namespace ContextDiagram.Layout

open Plane

/-- The room that a context takes, its margin included. -/
structure Cell (α : Type) where
  id : String
  size : Size α
deriving Repr

/-- A row has at least one cell. -/
structure Row (α : Type) where
  first : Cell α
  others : List (Cell α)
deriving Repr

namespace Row

variable {α : Type} [Scalar α]

def cells (r : Row α) : List (Cell α) :=
  r.first :: r.others

def length (r : Row α) : Nat :=
  r.others.length + 1

/-- The distance between the centres of neighbouring cells: the width of the widest one. -/
def pitch (r : Row α) : α :=
  Scalar.largest (r.cells.map (·.size.width))

def height (r : Row α) : α :=
  Scalar.largest (r.cells.map (·.size.height))

def width (r : Row α) : α :=
  Scalar.ofNat r.length * r.pitch

def single (cell : Cell α) : Row α where
  first := cell
  others := []

def push (r : Row α) (cell : Cell α) : Row α :=
  { r with others := r.others ++ [cell] }

/-- Whether a row may take one more cell: it has fewer than `capacity`, and it does not become wider
than `limit`. -/
def admits (capacity : Nat) (limit : α) (r : Row α) (cell : Cell α) : Bool :=
  r.length < capacity && !Scalar.lt limit (r.push cell).width

def fill (capacity : Nat) (limit : α) (r : Row α) : List (Cell α) → List (Row α)
  | [] => [r]
  | cell :: cells =>
    if r.admits capacity limit cell then (r.push cell).fill capacity limit cells
    else r :: (single cell).fill capacity limit cells

/-- The horizontal centre of the cell at a slot, counted from 0. -/
def slotX (r : Row α) (slot : Nat) : α :=
  (Scalar.ofNat slot - Scalar.half (Scalar.ofNat (r.length - 1))) * r.pitch

def centers (r : Row α) (y : α) : List (Point α) :=
  (List.range r.length).map fun slot => ⟨r.slotX slot, y⟩

end Row

variable {α : Type} [Scalar α]

def splitRows (capacity : Nat) (limit : α) : List (Cell α) → List (Row α)
  | [] => []
  | cell :: cells => (Row.single cell).fill capacity limit cells

/-- The centres of all cells of rows that are stacked from `top` on, each below in `y` by half of
its own height and half of the height of the row before it. -/
def stackCenters (top : α) : List (Row α) → List (Point α)
  | [] => []
  | r :: rows => r.centers (top - Scalar.half r.height) ++ stackCenters (top - r.height) rows

/-- The least number whose square is not less than `n`. -/
def ceilRoot : Nat → Nat
  | 0 => 0
  | n + 1 =>
    let root := ceilRoot n
    if n + 1 ≤ root * root then root else root + 1

def rowCapacity (count : Nat) : Nat :=
  max 1 (ceilRoot count)

end ContextDiagram.Layout
