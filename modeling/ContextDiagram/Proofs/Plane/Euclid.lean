import Mathlib
import ContextDiagram.Proofs.Plane.Exact
import ContextDiagram.Plane.Basic

namespace ContextDiagram.Plane

noncomputable instance exactEuclidean : EuclideanScalar ℝ :=
  { exactScalar with
    sqrt := Real.sqrt
    hypotenuse := fun x y => √(x ^ 2 + y ^ 2) }

namespace Scalar

theorem same_eq_true_iff {x y : ℝ} : same x y = true ↔ x = y := by
  change decide (x = y) = true ↔ x = y
  rw [decide_eq_true_iff]

theorem same_zero_iff {x : ℝ} : same x zero = true ↔ x = 0 := by
  rw [same_eq_true_iff, zero_eq]

end Scalar

namespace EuclideanScalar

theorem hypotenuse_nonneg (x y : ℝ) : 0 ≤ hypotenuse x y :=
  Real.sqrt_nonneg _

theorem hypotenuse_sq (x y : ℝ) : hypotenuse x y ^ 2 = x ^ 2 + y ^ 2 :=
  Real.sq_sqrt (add_nonneg (sq_nonneg x) (sq_nonneg y))

theorem hypotenuse_eq_zero_iff {x y : ℝ} : hypotenuse x y = 0 ↔ x = 0 ∧ y = 0 := by
  rw [← sq_eq_zero_iff, hypotenuse_sq, add_eq_zero_iff_of_nonneg (sq_nonneg x) (sq_nonneg y),
    sq_eq_zero_iff, sq_eq_zero_iff]

end EuclideanScalar

namespace Point

attribute [ext] Point

variable (p q : Point ℝ)

theorem add_eq : p.add q = ⟨p.x + q.x, p.y + q.y⟩ := rfl

theorem sub_eq : p.sub q = ⟨p.x - q.x, p.y - q.y⟩ := rfl

theorem scale_eq (factor : ℝ) : p.scale factor = ⟨p.x * factor, p.y * factor⟩ := rfl

theorem midpoint_eq : p.midpoint q = ⟨(p.x + q.x) / 2, (p.y + q.y) / 2⟩ := by
  rw [midpoint, Scalar.half_eq, Scalar.half_eq]

theorem length_nonneg : 0 ≤ p.length :=
  EuclideanScalar.hypotenuse_nonneg p.x p.y

theorem length_sq : p.length ^ 2 = p.x ^ 2 + p.y ^ 2 :=
  EuclideanScalar.hypotenuse_sq p.x p.y

theorem length_sub_sq : (p.sub q).length ^ 2 = (p.x - q.x) ^ 2 + (p.y - q.y) ^ 2 :=
  length_sq (p.sub q)

theorem length_sub_eq {p q : Point ℝ} {r : ℝ} (h : 0 ≤ r)
    (hsq : (p.x - q.x) ^ 2 + (p.y - q.y) ^ 2 = r ^ 2) : (p.sub q).length = r := by
  apply (sq_eq_sq₀ (length_nonneg _) h).1
  rw [length_sub_sq, hsq]

theorem length_sub_comm : (p.sub q).length = (q.sub p).length := by
  apply length_sub_eq (length_nonneg _)
  rw [length_sub_sq]
  ring

theorem length_sub_eq_zero_iff {p q : Point ℝ} : (p.sub q).length = 0 ↔ p = q := by
  rw [Point.ext_iff, length, EuclideanScalar.hypotenuse_eq_zero_iff]
  exact and_congr sub_eq_zero sub_eq_zero

theorem length_sub_pos {p q : Point ℝ} (h : p ≠ q) : 0 < (p.sub q).length := by
  apply (length_nonneg _).lt_of_ne
  intro hzero
  exact h (length_sub_eq_zero_iff.1 hzero.symm)

end Point

end ContextDiagram.Plane
