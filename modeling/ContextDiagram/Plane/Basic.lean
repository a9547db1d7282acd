import ContextDiagram.Plane.Scalar

namespace ContextDiagram.Plane

/-- The origin is the centre of the canvas, `x` grows to the right and `y` grows downwards. -/
structure Point (α : Type) where
  x : α
  y : α
deriving Repr

structure Size (α : Type) where
  width : α
  height : α
deriving Repr

structure Spacing (α : Type) where
  horizontal : α
  vertical : α
deriving Repr

section

variable {α : Type} [Scalar α]

namespace Point

def origin : Point α :=
  ⟨Scalar.zero, Scalar.zero⟩

def add (p q : Point α) : Point α :=
  ⟨p.x + q.x, p.y + q.y⟩

def sub (p q : Point α) : Point α :=
  ⟨p.x - q.x, p.y - q.y⟩

def scale (p : Point α) (factor : α) : Point α :=
  ⟨p.x * factor, p.y * factor⟩

def midpoint (p q : Point α) : Point α :=
  ⟨Scalar.half (p.x + q.x), Scalar.half (p.y + q.y)⟩

/-- Whether both points lie on one horizontal or one vertical line. -/
def isAligned (p q : Point α) : Bool :=
  Scalar.same p.x q.x || Scalar.same p.y q.y

end Point

namespace Size

def grow (s : Size α) (margin : Spacing α) : Size α :=
  ⟨s.width + Scalar.ofNat 2 * margin.horizontal, s.height + Scalar.ofNat 2 * margin.vertical⟩

def halves (s : Size α) : Size α :=
  ⟨Scalar.half s.width, Scalar.half s.height⟩

/-- Whether both lengths are finite and not negative. -/
def isValid (s : Size α) : Bool :=
  Scalar.isLength s.width && Scalar.isLength s.height

def isPositive (s : Size α) : Bool :=
  s.isValid && !Scalar.le s.width Scalar.zero && !Scalar.le s.height Scalar.zero

end Size

namespace Spacing

def none : Spacing α :=
  ⟨Scalar.zero, Scalar.zero⟩

def isValid (s : Spacing α) : Bool :=
  Scalar.isLength s.horizontal && Scalar.isLength s.vertical

end Spacing

/-- A rectangle by its corner of least coordinates and its size. -/
structure Rectangle (α : Type) where
  corner : Point α
  size : Size α
deriving Repr

def Rectangle.centered (size : Size α) : Rectangle α where
  corner := ⟨Scalar.half (-size.width), Scalar.half (-size.height)⟩
  size := size

end

section

variable {α : Type} [EuclideanScalar α]

namespace Point

def length (p : Point α) : α :=
  EuclideanScalar.hypotenuse p.x p.y

def distance (p q : Point α) : α :=
  (q.sub p).length

end Point

end

end ContextDiagram.Plane
