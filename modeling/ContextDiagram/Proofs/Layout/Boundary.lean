import ContextDiagram.Proofs.Plane.Guarded
import ContextDiagram.Layout.Routing

namespace ContextDiagram.Layout

open Plane

def IsOnEllipse (center : Point ℝ) (radii : Size ℝ) (p : Point ℝ) : Prop :=
  ((p.x - center.x) / radii.width) ^ 2 + ((p.y - center.y) / radii.height) ^ 2 = 1

/-- Whether a point lies on the ray from a centre towards another point, but not in the centre. -/
def IsOnRay (center toward p : Point ℝ) : Prop :=
  ∃ t : ℝ, 0 < t ∧ p = center.add ((toward.sub center).scale t)

noncomputable def heading (center toward : Point ℝ) : Point ℝ :=
  ⟨(toward.sub center).x / (toward.sub center).length,
    (toward.sub center).y / (toward.sub center).length⟩

noncomputable def divisor (radii : Size ℝ) (direction : Point ℝ) : ℝ :=
  EuclideanScalar.hypotenuse (radii.height * direction.x) (radii.width * direction.y)

section

variable {center toward : Point ℝ} {radii : Size ℝ}

theorem heading_sq (h : toward ≠ center) :
    (heading center toward).x ^ 2 + (heading center toward).y ^ 2 = 1 := by
  have hlength := Point.length_sub_pos h
  have hsq := Point.length_sq (toward.sub center)
  rw [heading, div_pow, div_pow, ← add_div, ← hsq, div_self (pow_pos hlength 2).ne']

theorem heading_scale (h : toward ≠ center) (factor : ℝ) :
    (heading center toward).scale factor =
      (toward.sub center).scale (factor / (toward.sub center).length) := by
  have hlength := (Point.length_sub_pos h).ne'
  rw [heading, Point.scale_eq, Point.scale_eq, Point.mk.injEq]
  constructor <;> ring

theorem divisor_sq (radii : Size ℝ) (direction : Point ℝ) : divisor radii direction ^ 2 =
    (radii.height * direction.x) ^ 2 + (radii.width * direction.y) ^ 2 :=
  EuclideanScalar.hypotenuse_sq _ _

/-- An ellipse with room reaches out in every direction. -/
theorem divisor_pos (hwidth : 0 < radii.width) (hheight : 0 < radii.height) {direction : Point ℝ}
    (h : direction.x ^ 2 + direction.y ^ 2 = 1) : 0 < divisor radii direction := by
  apply (EuclideanScalar.hypotenuse_nonneg _ _).lt_of_ne'
  intro hzero
  obtain ⟨hx, hy⟩ := EuclideanScalar.hypotenuse_eq_zero_iff.1 hzero
  rw [(mul_eq_zero_iff_left hheight.ne').1 hx, (mul_eq_zero_iff_left hwidth.ne').1 hy] at h
  norm_num at h

theorem boundaryPoint_self (center : Point ℝ) (radii : Size ℝ) :
    boundaryPoint center radii center = center :=
  if_pos (Scalar.same_zero_iff.2 (Point.length_sub_eq_zero_iff.2 rfl))

theorem boundaryPoint_of_divisor_eq_zero
    (h : divisor radii (heading center toward) = 0) :
    boundaryPoint center radii toward = center := by
  by_cases hself : toward = center
  · rw [hself]
    exact boundaryPoint_self center radii
  · have hlength := mt Scalar.same_zero_iff.1 (Point.length_sub_pos hself).ne'
    exact (if_neg hlength).trans (if_pos (Scalar.same_zero_iff.2 h))

theorem boundaryPoint_of_divisor_ne_zero (hself : toward ≠ center)
    (h : divisor radii (heading center toward) ≠ 0) :
    boundaryPoint center radii toward =
      center.add ((heading center toward).scale
        (radii.width * radii.height / divisor radii (heading center toward))) := by
  have hlength := mt Scalar.same_zero_iff.1 (Point.length_sub_pos hself).ne'
  exact (if_neg hlength).trans (if_neg (mt Scalar.same_zero_iff.1 h))

theorem boundaryPoint_of_flat (h : radii.width = 0 ∨ radii.height = 0) :
    boundaryPoint center radii toward = center := by
  by_cases hself : toward = center
  · rw [hself]
    exact boundaryPoint_self center radii
  · by_cases hdivisor : divisor radii (heading center toward) = 0
    · exact boundaryPoint_of_divisor_eq_zero hdivisor
    · rw [boundaryPoint_of_divisor_ne_zero hself hdivisor, mul_eq_zero.2 h, zero_div,
        Point.scale_eq, Point.add_eq, mul_zero, mul_zero, add_zero, add_zero]

theorem isOnRay_boundaryPoint (hself : toward ≠ center) (hwidth : 0 < radii.width)
    (hheight : 0 < radii.height) : IsOnRay center toward (boundaryPoint center radii toward) := by
  have hdivisor := divisor_pos hwidth hheight (heading_sq hself)
  refine ⟨radii.width * radii.height / divisor radii (heading center toward) /
    (toward.sub center).length, ?_, ?_⟩
  · exact div_pos (div_pos (mul_pos hwidth hheight) hdivisor) (Point.length_sub_pos hself)
  · rw [boundaryPoint_of_divisor_ne_zero hself hdivisor.ne', heading_scale hself]

/-- With `d` the direction and `n` the divisor, the equation of the ellipse is
`(b * d.x) ^ 2 + (a * d.y) ^ 2 = n ^ 2`. -/
theorem isOnEllipse_boundaryPoint (hself : toward ≠ center) (hwidth : 0 < radii.width)
    (hheight : 0 < radii.height) :
    IsOnEllipse center radii (boundaryPoint center radii toward) := by
  have hdivisor := divisor_pos hwidth hheight (heading_sq hself)
  have hsq := divisor_sq radii (heading center toward)
  rw [boundaryPoint_of_divisor_ne_zero hself hdivisor.ne', IsOnEllipse, Point.scale_eq,
    Point.add_eq, add_sub_cancel_left, add_sub_cancel_left]
  have hx (d : ℝ) : d * (radii.width * radii.height / divisor radii (heading center toward)) /
      radii.width = radii.height * d / divisor radii (heading center toward) := by
    field_simp
  have hy (d : ℝ) : d * (radii.width * radii.height / divisor radii (heading center toward)) /
      radii.height = radii.width * d / divisor radii (heading center toward) := by
    field_simp
  rw [hx, hy, div_pow, div_pow, ← add_div, ← hsq, div_self (pow_pos hdivisor 2).ne']

end

/-- The tests for zero stand before every division. -/
theorem boundaryPoint_guarded (center toward : Point ℝ) (radii : Size ℝ) :
    boundaryPoint center.guarded radii.guarded toward.guarded =
      (boundaryPoint center radii toward).guarded := by
  by_cases hself : toward = center
  · rw [hself, boundaryPoint_self]
    exact if_pos (Scalar.same_zero_iff.2 (Point.length_sub_eq_zero_iff.2 rfl))
  · have hlength := (Point.length_sub_pos hself).ne'
    have hcos := Guarded.exactly_div (toward.sub center).x hlength
    have hsin := Guarded.exactly_div (toward.sub center).y hlength
    have htest := mt Scalar.same_zero_iff.1 hlength
    rw [boundaryPoint, Point.guarded_sub, Point.length_guarded, Guarded.same_zero, if_neg htest,
      Point.guarded_x, Point.guarded_y, hcos, hsin]
    by_cases hdivisor : divisor radii (heading center toward) = 0
    · rw [boundaryPoint_of_divisor_eq_zero hdivisor]
      exact if_pos (Scalar.same_zero_iff.2 hdivisor)
    · rw [boundaryPoint_of_divisor_ne_zero hself hdivisor, ← Point.guarded_add,
        ← Point.guarded_scale, ← Guarded.exactly_div _ hdivisor]
      exact if_neg (mt Scalar.same_zero_iff.1 hdivisor)

/-- The point where a ray leaves an ellipse, for all rays and all ellipses, those without room
included. -/
theorem boundaryPoint_leaves (center toward : Point ℝ) (radii : Size ℝ) :
    (toward ≠ center → 0 < radii.width → 0 < radii.height →
      IsOnRay center toward (boundaryPoint center radii toward) ∧
        IsOnEllipse center radii (boundaryPoint center radii toward)) ∧
      (toward = center ∨ radii.width = 0 ∨ radii.height = 0 →
        boundaryPoint center radii toward = center) ∧
      boundaryPoint center.guarded radii.guarded toward.guarded =
        (boundaryPoint center radii toward).guarded := by
  refine ⟨?_, ?_, boundaryPoint_guarded center toward radii⟩
  · intro hself hwidth hheight
    exact ⟨isOnRay_boundaryPoint hself hwidth hheight,
      isOnEllipse_boundaryPoint hself hwidth hheight⟩
  · intro h
    rcases h with rfl | hflat
    · exact boundaryPoint_self toward radii
    · exact boundaryPoint_of_flat hflat

theorem boundaryPoint_leaves_tilted :
    IsOnRay ⟨1, 2⟩ ⟨4, 6⟩ (boundaryPoint ⟨1, 2⟩ ⟨4, 3⟩ ⟨4, 6⟩) ∧
      IsOnEllipse ⟨1, 2⟩ ⟨4, 3⟩ (boundaryPoint ⟨1, 2⟩ ⟨4, 3⟩ ⟨4, 6⟩) ∧
      boundaryPoint (⟨1, 2⟩ : Point ℝ) ⟨0, 3⟩ ⟨4, 6⟩ = ⟨1, 2⟩ := by
  have hself : (⟨4, 6⟩ : Point ℝ) ≠ ⟨1, 2⟩ := by
    rw [Ne, Point.mk.injEq]
    norm_num
  obtain ⟨hray, hellipse⟩ := (boundaryPoint_leaves ⟨1, 2⟩ ⟨4, 6⟩ ⟨4, 3⟩).1 hself
    (by norm_num) (by norm_num)
  have hflat := (boundaryPoint_leaves ⟨1, 2⟩ ⟨4, 6⟩ ⟨0, 3⟩).2.1 (.inr (.inl rfl))
  exact ⟨hray, hellipse, hflat⟩

end ContextDiagram.Layout
