import ContextDiagram.Layout.Distribution

namespace ContextDiagram.Layout

open Plane

/-- Places that do not fit the contexts, which is a defect of the rows and not of the map. -/
inductive PlacingDefect
  | noContext (index : Nat)
  | placedTwice (index : Nat)
deriving DecidableEq, Repr

abbrev Placing (α : Type) : Type → Type :=
  StateT (List (SizedContext α)) (Except PlacingDefect)

variable {α : Type}

def placeNth (index : Nat) (center : Point α) : Placing α Unit := fun contexts =>
  match contexts[index]? with
  | none => .error (.noContext index)
  | some c =>
    if c.center.isSome then .error (.placedTwice index)
    else .ok ((), contexts.set index (c.placeAt center))

def placeAll (places : List (Nat × Point α)) : Placing α Unit :=
  places.forM fun place => placeNth place.1 place.2

variable [Scalar α]

/-- The places of the cells of a row, which are numbered from `start` on. -/
def Row.places (r : Row α) (start : Nat) (y : α) : List (Nat × Point α) :=
  (List.range r.length).map fun slot => (start + slot, ⟨r.slotX slot, y⟩)

def stackPlaces (start : Nat) (top : α) : List (Row α) → List (Nat × Point α)
  | [] => []
  | r :: rows =>
    r.places start (top - Scalar.half r.height) ++
      stackPlaces (start + r.length) (top - r.height) rows

def placesOf (rows : List (Row α)) : List (Nat × Point α) :=
  stackPlaces 0 (Scalar.half (totalHeight rows)) rows

def distributeInPlace (canvas : Size α) (margin : Spacing α) :
    ExceptT (DistributionFault α) (Placing α) Unit := do
  let contexts ← get
  MonadExcept.ofExcept (validate contexts canvas margin)
  let rows := rowsOf contexts canvas margin
  MonadExcept.ofExcept (checkFits rows canvas)
  placeAll (placesOf rows)

end ContextDiagram.Layout
