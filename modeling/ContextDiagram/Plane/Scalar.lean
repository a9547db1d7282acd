import ContextDiagram.Number.Binary

namespace ContextDiagram.Plane

/-- Arithmetic with comparisons that are tests, so that a number that compares with nothing fails
all of them. -/
class Scalar (α : Type) extends Add α, Sub α, Mul α, Div α, Neg α where
  ofNat : Nat → α
  lt : α → α → Bool
  le : α → α → Bool
  same : α → α → Bool
  larger : α → α → α
  isFinite : α → Bool

class EuclideanScalar (α : Type) extends Scalar α where
  sqrt : α → α
  hypotenuse : α → α → α

namespace Scalar

variable {α : Type} [Scalar α]

def zero : α :=
  ofNat 0

def half (x : α) : α :=
  x / ofNat 2

/-- The sum from left to right. -/
def sum (xs : List α) : α :=
  xs.foldl (· + ·) zero

/-- The largest of the numbers and zero. -/
def largest (xs : List α) : α :=
  xs.foldl larger zero

def isLength (x : α) : Bool :=
  isFinite x && le zero x

end Scalar

/-- The larger of two single precision numbers: the other one if one is not a number, the first one
if they are equal. -/
def largerSingle (x y : Float32) : Float32 :=
  if x.isNaN || x < y then y else x

instance : EuclideanScalar Float32 where
  ofNat := Float32.ofNat
  lt x y := x < y
  le x y := x ≤ y
  same x y := x == y
  larger := largerSingle
  isFinite := Float32.isFinite
  sqrt := Float32.sqrt
  hypotenuse := Number.hypotenuse

end ContextDiagram.Plane
