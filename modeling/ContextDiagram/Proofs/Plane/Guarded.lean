import ContextDiagram.Proofs.Plane.Euclid

namespace ContextDiagram.Plane

/-- A number, or nothing. A quotient by zero, which is zero by convention in a field, is nothing
here. -/
def Guarded : Type := Option ℝ

namespace Guarded

def exactly (x : ℝ) : Guarded :=
  some x

noncomputable def quotient (x y : ℝ) : Guarded :=
  if y = 0 then none else some (x / y)

def test (p : ℝ → ℝ → Bool) (x y : Guarded) : Bool :=
  (Option.map₂ p x y).getD false

noncomputable instance guardedEuclidean : EuclideanScalar Guarded where
  add := Option.map₂ (· + ·)
  sub := Option.map₂ (· - ·)
  mul := Option.map₂ (· * ·)
  div x y := Option.bind x fun a => Option.bind y fun b => quotient a b
  neg := Option.map (- ·)
  ofNat n := exactly n
  lt := test Scalar.lt
  le := test Scalar.le
  same := test Scalar.same
  larger := Option.map₂ Scalar.larger
  isFinite := Option.isSome
  sqrt := Option.map EuclideanScalar.sqrt
  hypotenuse := Option.map₂ EuclideanScalar.hypotenuse

variable (x : ℝ)

theorem exactly_div {y : ℝ} (h : y ≠ 0) : exactly x / exactly y = exactly (x / y) :=
  if_neg h

theorem same_zero : Scalar.same (exactly x) Scalar.zero = Scalar.same x Scalar.zero := rfl

end Guarded

def Point.guarded (p : Point ℝ) : Point Guarded :=
  ⟨.exactly p.x, .exactly p.y⟩

def Size.guarded (s : Size ℝ) : Size Guarded :=
  ⟨.exactly s.width, .exactly s.height⟩

namespace Point

variable (p q : Point ℝ)

theorem guarded_x : p.guarded.x = .exactly p.x := rfl

theorem guarded_y : p.guarded.y = .exactly p.y := rfl

theorem guarded_add : p.guarded.add q.guarded = (p.add q).guarded := rfl

theorem guarded_sub : p.guarded.sub q.guarded = (p.sub q).guarded := rfl

theorem guarded_scale (factor : ℝ) :
    p.guarded.scale (.exactly factor) = (p.scale factor).guarded := rfl

theorem length_guarded : p.guarded.length = .exactly p.length := rfl

end Point

end ContextDiagram.Plane
