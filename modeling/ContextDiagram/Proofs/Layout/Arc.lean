import ContextDiagram.Proofs.Layout.Boundary
import ContextDiagram.Proofs.Layout.Outcomes
import ContextDiagram.Drawing

namespace ContextDiagram.Layout

open Plane Real

/-- Positive if the second vector points to the right of the first one, and negative if it points to
the left: `y` grows downwards. -/
def turn (u v : Point ℝ) : ℝ :=
  u.x * v.y - u.y * v.x

noncomputable def bulge (radius length : ℝ) : ℝ :=
  radius - √(max (radius * radius - Scalar.half length * Scalar.half length) 0)

/-- The points of a circle that an angle passes over. An angle that grows turns to the right, as `y`
grows downwards. -/
structure CircularArc where
  center : Point ℝ
  radius : ℝ
  startAngle : ℝ
  extent : ℝ

noncomputable def CircularArc.pointAt (a : CircularArc) (share : ℝ) : Point ℝ :=
  ⟨a.center.x + a.radius * cos (a.startAngle + share * a.extent),
    a.center.y + a.radius * sin (a.startAngle + share * a.extent)⟩

/-- Whether an arc is the one that a path draws between two points: with one flag it takes more than
half of the circle, and with the other one its angle grows. -/
structure CircularArc.IsDrawn (a : CircularArc) (start stop : Point ℝ) (radius : ℝ)
    (largeArc sweep : Bool) : Prop where
  radius_eq : a.radius = radius
  pointAt_zero : a.pointAt 0 = start
  pointAt_one : a.pointAt 1 = stop
  extent_lt : |a.extent| < 2 * π
  largeArc_iff : largeArc = true ↔ π < |a.extent|
  sweep_iff : sweep = true ↔ 0 < a.extent

theorem arcMiddle_eq (start stop : Point ℝ) (radius : ℝ) :
    arcMiddle start stop radius =
      ⟨(start.x + stop.x) / 2 + (stop.y - start.y) *
          (bulge radius (stop.sub start).length / (stop.sub start).length),
        (start.y + stop.y) / 2 - (stop.x - start.x) *
          (bulge radius (stop.sub start).length / (stop.sub start).length)⟩ := by
  by_cases h : (stop.sub start).length = 0
  · rw [h, div_zero, mul_zero, mul_zero, add_zero, sub_zero]
    exact (if_pos (Scalar.same_zero_iff.2 h)).trans (Point.midpoint_eq start stop)
  · have hone : (Scalar.ofNat 1 : ℝ) = 1 := Nat.cast_one
    have hbulge : radius - EuclideanScalar.sqrt (Scalar.larger (radius * radius -
        Scalar.half (stop.sub start).length * Scalar.half (stop.sub start).length) Scalar.zero) =
        bulge radius (stop.sub start).length := by
      rw [Scalar.zero_eq]
      rfl
    refine (if_neg (mt Scalar.same_zero_iff.1 h)).trans ?_
    rw [hbulge, hone, Point.midpoint_eq, Point.scale_eq, Point.scale_eq, Point.add_eq,
      Point.mk.injEq]
    constructor
    · change _ + (stop.y - start.y) * (1 / _) * _ = _
      ring
    · change _ + -(stop.x - start.x) * (1 / _) * _ = _
      ring

/-- The radius of an arc is the length of its chord, so that chord and centre are the corners of an
equilateral triangle. -/
theorem bulge_self {length : ℝ} (h : 0 < length) : bulge length length / length = 1 - √3 / 2 := by
  have hsquare : length * length - length / 2 * (length / 2) = (length * (√3 / 2)) ^ 2 := by
    rw [mul_pow, div_pow, Real.sq_sqrt (by norm_num)]
    ring
  have hroot : 0 ≤ length * (√3 / 2) := by positivity
  rw [bulge, Scalar.half_eq, hsquare, max_eq_left (sq_nonneg _), Real.sqrt_sq hroot]
  field_simp

section

variable {start stop : Point ℝ}

/-- The centre of the circle through two points whose radius is their distance; of the two there are
the one on the right. -/
noncomputable def arcCenter (start stop : Point ℝ) : Point ℝ :=
  (start.midpoint stop).add
    ((Point.mk (start.y - stop.y) (stop.x - start.x)).scale (Scalar.half √(3 : ℕ)))

theorem arcCenter_eq : arcCenter start stop =
    ⟨(start.x + stop.x) / 2 - (stop.y - start.y) * (√3 / 2),
      (start.y + stop.y) / 2 + (stop.x - start.x) * (√3 / 2)⟩ := by
  rw [arcCenter, Point.midpoint_eq, Point.scale_eq, Point.add_eq, Scalar.half_eq, Nat.cast_ofNat,
    Point.mk.injEq]
  constructor <;> ring

theorem arcMiddle_self_length (h : start ≠ stop) :
    arcMiddle start stop (stop.sub start).length =
      ⟨(start.x + stop.x) / 2 + (stop.y - start.y) * (1 - √3 / 2),
        (start.y + stop.y) / 2 - (stop.x - start.x) * (1 - √3 / 2)⟩ := by
  rw [arcMiddle_eq, bulge_self (Point.length_sub_pos h.symm)]

theorem length_start_arcCenter :
    (start.sub (arcCenter start stop)).length = (stop.sub start).length := by
  have hroot : √3 ^ 2 = 3 := Real.sq_sqrt (by norm_num)
  apply Point.length_sub_eq (Point.length_nonneg _)
  rw [Point.length_sub_sq, arcCenter_eq]
  linear_combination ((stop.x - start.x) ^ 2 + (stop.y - start.y) ^ 2) / 4 * hroot

theorem length_stop_arcCenter :
    (stop.sub (arcCenter start stop)).length = (stop.sub start).length := by
  have hroot : √3 ^ 2 = 3 := Real.sq_sqrt (by norm_num)
  apply Point.length_sub_eq (Point.length_nonneg _)
  rw [Point.length_sub_sq, arcCenter_eq]
  linear_combination ((stop.x - start.x) ^ 2 + (stop.y - start.y) ^ 2) / 4 * hroot

theorem length_arcMiddle_arcCenter (h : start ≠ stop) :
    ((arcMiddle start stop (stop.sub start).length).sub (arcCenter start stop)).length =
      (stop.sub start).length := by
  apply Point.length_sub_eq (Point.length_nonneg _)
  rw [Point.length_sub_sq, arcMiddle_self_length h, arcCenter_eq]
  ring

theorem length_arcMiddle_comm (h : start ≠ stop) :
    ((arcMiddle start stop (stop.sub start).length).sub start).length =
      ((arcMiddle start stop (stop.sub start).length).sub stop).length := by
  apply Point.length_sub_eq (Point.length_nonneg _)
  rw [Point.length_sub_sq, arcMiddle_self_length h]
  ring

theorem turn_arcCenter_pos (h : start ≠ stop) :
    0 < turn (stop.sub start) ((arcCenter start stop).sub start) := by
  have hturn : turn (stop.sub start) ((arcCenter start stop).sub start) =
      (stop.sub start).length ^ 2 * (√3 / 2) := by
    rw [Point.length_sub_sq, turn, arcCenter_eq, Point.sub_eq, Point.sub_eq]
    ring
  have hlength := Point.length_sub_pos h.symm
  rw [hturn]
  positivity

theorem turn_arcMiddle_neg (h : start ≠ stop) :
    turn (stop.sub start) ((arcMiddle start stop (stop.sub start).length).sub start) < 0 := by
  have hturn : turn (stop.sub start) ((arcMiddle start stop (stop.sub start).length).sub start) =
      -((stop.sub start).length ^ 2 * (1 - √3 / 2)) := by
    rw [Point.length_sub_sq, turn, arcMiddle_self_length h, Point.sub_eq, Point.sub_eq]
    ring
  have hlength := Point.length_sub_pos h.symm
  have hroot : √3 < 2 := (Real.sqrt_lt' two_pos).2 (by norm_num)
  have hheight : 0 < 1 - √3 / 2 := by linarith
  rw [hturn, neg_lt_zero]
  positivity

theorem exists_angle (h : start ≠ stop) :
    ∃ angle : ℝ, (stop.sub start).length * cos angle = stop.y - start.y ∧
      (stop.sub start).length * sin angle = -(stop.x - start.x) := by
  have hlength := (Point.length_sub_pos h.symm).ne'
  have hnorm : ‖(⟨stop.y - start.y, -(stop.x - start.x)⟩ : ℂ)‖ = (stop.sub start).length := by
    apply (sq_eq_sq₀ (norm_nonneg _) (Point.length_nonneg _)).1
    rw [Complex.sq_norm, Complex.normSq_apply, Point.length_sub_sq]
    ring
  have hne : (⟨stop.y - start.y, -(stop.x - start.x)⟩ : ℂ) ≠ 0 := by
    rw [← norm_ne_zero_iff, hnorm]
    exact hlength
  refine ⟨Complex.arg ⟨stop.y - start.y, -(stop.x - start.x)⟩, ?_, ?_⟩
  · rw [Complex.cos_arg hne, hnorm, mul_div_cancel₀ _ hlength]
  · rw [Complex.sin_arg, hnorm, mul_div_cancel₀ _ hlength]

/-- The chord of an arc is seen from its centre under an angle of 60 degrees. -/
theorem exists_isDrawn (h : start ≠ stop) :
    ∃ arc : CircularArc, arc.IsDrawn start stop (stop.sub start).length false true := by
  obtain ⟨angle, hcos, hsin⟩ := exists_angle h
  have hpi := Real.pi_pos
  have habs : |π / 3| = π / 3 := abs_of_pos (by positivity)
  refine ⟨⟨arcCenter start stop, (stop.sub start).length, angle - π / 6, π / 3⟩, rfl, ?_, ?_, ?_,
    ?_, ?_⟩
  · rw [CircularArc.pointAt, zero_mul, add_zero, Real.cos_sub, Real.sin_sub, Real.cos_pi_div_six,
      Real.sin_pi_div_six, Point.ext_iff, arcCenter_eq]
    constructor
    · linear_combination (√3 / 2) * hcos + 1 / 2 * hsin
    · linear_combination (√3 / 2) * hsin - 1 / 2 * hcos
  · have hangle : angle - π / 6 + 1 * (π / 3) = angle + π / 6 := by ring
    rw [CircularArc.pointAt, hangle, Real.cos_add, Real.sin_add, Real.cos_pi_div_six,
      Real.sin_pi_div_six, Point.ext_iff, arcCenter_eq]
    constructor
    · linear_combination (√3 / 2) * hcos - 1 / 2 * hsin
    · linear_combination (√3 / 2) * hsin + 1 / 2 * hcos
  · rw [habs]
    linarith
  · rw [habs]
    exact iff_of_false Bool.false_ne_true (by linarith)
  · exact iff_of_true rfl (by positivity)

theorem CircularArc.pointAt_ends (arc : CircularArc) {middle half : ℝ}
    (hmiddle : middle = arc.startAngle + arc.extent / 2) (hhalf : half = arc.extent / 2) :
    arc.pointAt 0 =
        ⟨arc.center.x + arc.radius * (cos middle * cos half + sin middle * sin half),
          arc.center.y + arc.radius * (sin middle * cos half - cos middle * sin half)⟩ ∧
      arc.pointAt 1 =
        ⟨arc.center.x + arc.radius * (cos middle * cos half - sin middle * sin half),
          arc.center.y + arc.radius * (sin middle * cos half + cos middle * sin half)⟩ := by
  have hstart : arc.startAngle + 0 * arc.extent = middle - half := by
    rw [hmiddle, hhalf]
    ring
  have hstop : arc.startAngle + 1 * arc.extent = middle + half := by
    rw [hmiddle, hhalf]
    ring
  constructor
  · rw [pointAt, hstart, Real.cos_sub, Real.sin_sub]
  · rw [pointAt, hstop, Real.cos_add, Real.sin_add]

theorem CircularArc.length_chord_sq (arc : CircularArc) :
    ((arc.pointAt 1).sub (arc.pointAt 0)).length ^ 2 =
      (2 * arc.radius * sin (arc.extent / 2)) ^ 2 := by
  obtain ⟨hstart, hstop⟩ := arc.pointAt_ends rfl rfl
  have hcircle := Real.sin_sq_add_cos_sq (arc.startAngle + arc.extent / 2)
  rw [Point.length_sub_sq, hstart, hstop]
  linear_combination (2 * arc.radius * sin (arc.extent / 2)) ^ 2 * hcircle

/-- The flags leave the arc that takes a sixth of the circle. -/
theorem CircularArc.IsDrawn.half_extent {arc : CircularArc}
    (h : arc.IsDrawn start stop (stop.sub start).length false true) (hne : start ≠ stop) :
    sin (arc.extent / 2) = 1 / 2 ∧ cos (arc.extent / 2) = √3 / 2 := by
  have hpos : 0 < arc.extent := h.sweep_iff.1 rfl
  have hle : |arc.extent| ≤ π := not_lt.1 (mt h.largeArc_iff.2 Bool.false_ne_true)
  have hextent : arc.extent ≤ π := (le_abs_self _).trans hle
  have hlength := Point.length_sub_pos hne.symm
  have hchord := arc.length_chord_sq
  rw [h.pointAt_zero, h.pointAt_one, h.radius_eq] at hchord
  have hsin_nonneg : 0 ≤ sin (arc.extent / 2) :=
    Real.sin_nonneg_of_nonneg_of_le_pi (by linarith) (by linarith)
  have hcos_nonneg : 0 ≤ cos (arc.extent / 2) :=
    Real.cos_nonneg_of_neg_pi_div_two_le_of_le (by linarith) (by linarith)
  have hsin : sin (arc.extent / 2) = 1 / 2 := by
    have hroot := (sq_eq_sq₀ hlength.le (by positivity)).1 hchord
    apply mul_left_cancel₀ hlength.ne'
    linarith
  refine ⟨hsin, ?_⟩
  have hcircle := Real.sin_sq_add_cos_sq (arc.extent / 2)
  have hroot : √3 ^ 2 = 3 := Real.sq_sqrt (by norm_num)
  apply (sq_eq_sq₀ hcos_nonneg (by positivity)).1
  rw [hsin] at hcircle
  linear_combination hcircle - 1 / 4 * hroot

theorem CircularArc.IsDrawn.pointAt_half {arc : CircularArc}
    (h : arc.IsDrawn start stop (stop.sub start).length false true) (hne : start ≠ stop) :
    arc.pointAt (1 / 2) = arcMiddle start stop (stop.sub start).length := by
  obtain ⟨hsin, hcos⟩ := h.half_extent hne
  obtain ⟨hstart, hstop⟩ := arc.pointAt_ends rfl rfl
  rw [h.pointAt_zero, hsin, hcos, Point.ext_iff] at hstart
  rw [h.pointAt_one, hsin, hcos, Point.ext_iff] at hstop
  have hmiddle : arc.startAngle + 1 / 2 * arc.extent = arc.startAngle + arc.extent / 2 := by ring
  rw [arcMiddle_self_length hne, CircularArc.pointAt, hmiddle, hstart.1, hstart.2, hstop.1,
    hstop.2, Point.mk.injEq]
  constructor <;> ring

end

/-- Whether a point is the middle of the arc that a path draws between two points with a radius and
two flags, and that arc is the shorter one of its circle and turns to the right. -/
structure IsArcMiddle (p start stop : Point ℝ) (radius : ℝ) (largeArc sweep : Bool) : Prop where
  radius_eq : radius = (stop.sub start).length
  equidistant : (p.sub start).length = (p.sub stop).length
  exists_center : ∃ center : Point ℝ, (start.sub center).length = radius ∧
    (stop.sub center).length = radius ∧ (p.sub center).length = radius ∧
    0 < turn (stop.sub start) (center.sub start)
  turn_neg : turn (stop.sub start) (p.sub start) < 0
  exists_isDrawn : ∃ arc : CircularArc, arc.IsDrawn start stop radius largeArc sweep
  pointAt_half : ∀ arc : CircularArc, arc.IsDrawn start stop radius largeArc sweep →
    arc.pointAt (1 / 2) = p

theorem isArcMiddle_arcMiddle {start stop : Point ℝ} (h : start ≠ stop) :
    IsArcMiddle (arcMiddle start stop (stop.sub start).length) start stop (stop.sub start).length
      false true where
  radius_eq := rfl
  equidistant := length_arcMiddle_comm h
  exists_center := ⟨arcCenter start stop, length_start_arcCenter, length_stop_arcCenter,
    length_arcMiddle_arcCenter h, turn_arcCenter_pos h⟩
  turn_neg := turn_arcMiddle_neg h
  exists_isDrawn := exists_isDrawn h
  pointAt_half _ harc := harc.pointAt_half h

def arcText (radius : Float32) (largeArc sweep : Bool) : String :=
  " A " ++ Number.text radius ++ "," ++ Number.text radius ++ " 0 " ++ flag largeArc ++ "," ++
    flag sweep ++ " "
where
  flag (b : Bool) : String := if b then "1" else "0"

theorem Link.path_of_arc {link : Link Float32} {radius : Float32} (h : link.curve = .arc radius) :
    link.path =
      "M " ++ link.sourceAnchor.text ++ arcText radius false true ++ link.targetAnchor.text := by
  have hflags : " 0 " ++ arcText.flag false ++ "," ++ arcText.flag true ++ " " = " 0 0,1 " := by
    decide
  rw [Link.path, h, arcText, ← hflags]
  simp only [String.append_assoc]

/-- The label of a straight link is the midpoint of its segment, and the label of an arc is the
middle of what the path of the arc draws. -/
theorem labelAnchor_of_route :
    (∀ (link : Link Float32) (radius : Float32), link.curve = .arc radius →
      link.path =
        "M " ++ link.sourceAnchor.text ++ arcText radius false true ++ link.targetAnchor.text) ∧
      ∀ (contexts : List (SizedContext ℝ)) (index : Nat) (r : Relationship) (link : Link ℝ),
        route contexts index r = .ok link →
          (link.curve = .straight →
            link.labelAnchor = link.sourceAnchor.midpoint link.targetAnchor) ∧
          ∀ radius, link.curve = .arc radius → link.sourceAnchor ≠ link.targetAnchor →
            IsArcMiddle link.labelAnchor link.sourceAnchor link.targetAnchor radius false true := by
  refine ⟨fun link radius => Link.path_of_arc, ?_⟩
  intro contexts index r link h
  obtain ⟨source, target, -, -, rfl⟩ := exists_connect_of_route h
  cases haligned : source.2.isAligned target.2 with
  | true =>
    obtain ⟨hcurve, hlabel⟩ := connect_straight index r haligned
    refine ⟨fun _ => hlabel, ?_⟩
    intro radius harc
    cases hcurve.symm.trans harc
  | false =>
    obtain ⟨hcurve, hlabel⟩ := connect_arc index r haligned
    constructor
    · intro hstraight
      cases hcurve.symm.trans hstraight
    · intro radius harc hne
      cases hcurve.symm.trans harc
      rw [hlabel]
      exact isArcMiddle_arcMiddle hne

theorem labelAnchor_of_route_diagonal :
    ∃ (a b : SizedContext ℝ) (link : Link ℝ) (radius : ℝ),
      route [a, b] 0 ⟨⟨"A", []⟩, .toTarget, ⟨"B", []⟩⟩ = .ok link ∧ link.curve = .arc radius ∧
        IsArcMiddle link.labelAnchor link.sourceAnchor link.targetAnchor radius false true := by
  let a : SizedContext ℝ := ⟨"A", "A", ⟨2, 2⟩, ⟨0, 0⟩, some ⟨0, 0⟩⟩
  let b : SizedContext ℝ := ⟨"B", "B", ⟨2, 2⟩, ⟨0, 0⟩, some ⟨30, 40⟩⟩
  let r : Relationship := ⟨⟨"A", []⟩, .toTarget, ⟨"B", []⟩⟩
  have hroute : route [a, b] 0 r = .ok (connect 0 r (a, ⟨0, 0⟩) (b, ⟨30, 40⟩)) := rfl
  have hradii : Size.halves (⟨2, 2⟩ : Size ℝ) = ⟨1, 1⟩ := by
    rw [Size.halves, Scalar.half_eq]
    norm_num
  have hcenters : (⟨30, 40⟩ : Point ℝ) ≠ ⟨0, 0⟩ := by
    rw [Ne, Point.mk.injEq]
    norm_num
  have hsource : IsOnEllipse ⟨0, 0⟩ ⟨1, 1⟩ (boundaryPoint ⟨0, 0⟩ ⟨1, 1⟩ (⟨30, 40⟩ : Point ℝ)) :=
    isOnEllipse_boundaryPoint hcenters one_pos one_pos
  have htarget : IsOnEllipse ⟨30, 40⟩ ⟨1, 1⟩ (boundaryPoint ⟨30, 40⟩ ⟨1, 1⟩ (⟨0, 0⟩ : Point ℝ)) :=
    isOnEllipse_boundaryPoint hcenters.symm one_pos one_pos
  have hne : boundaryPoint ⟨0, 0⟩ (Size.halves ⟨2, 2⟩) (⟨30, 40⟩ : Point ℝ) ≠
      boundaryPoint ⟨30, 40⟩ (Size.halves ⟨2, 2⟩) (⟨0, 0⟩ : Point ℝ) := by
    intro he
    rw [hradii] at he
    rw [← he] at htarget
    rw [IsOnEllipse] at hsource htarget
    generalize boundaryPoint ⟨0, 0⟩ ⟨1, 1⟩ (⟨30, 40⟩ : Point ℝ) = p at hsource htarget
    dsimp only at hsource htarget
    nlinarith [sq_nonneg (3 * p.y - 4 * p.x)]
  have haligned : (⟨0, 0⟩ : Point ℝ).isAligned ⟨30, 40⟩ = false := by
    rw [← Bool.not_eq_true, Point.isAligned, Bool.or_eq_true, Scalar.same_eq_true_iff,
      Scalar.same_eq_true_iff]
    norm_num
  obtain ⟨hcurve, -⟩ := @connect_arc ℝ _ (a, ⟨0, 0⟩) (b, ⟨30, 40⟩) 0 r haligned
  exact ⟨a, b, _, _, hroute, hcurve, (labelAnchor_of_route.2 [a, b] 0 r _ hroute).2 _ hcurve hne⟩

end ContextDiagram.Layout
