import Mathlib
import ContextDiagram.Proofs.Layout.FinitePlaces
import ContextDiagram.Proofs.Layout.Outcomes
import ContextDiagram.Proofs.Plane.Euclid

namespace ContextDiagram

open Plane Number BinaryFormat

structure Plane.Point.IsWithin (p : Point Float32) (bound : ℝ) : Prop where
  x : Number.IsWithin p.x bound
  y : Number.IsWithin p.y bound

def Plane.Point.IsFinite {α : Type} [Scalar α] (p : Point α) : Prop :=
  Scalar.isFinite p.x = true ∧ Scalar.isFinite p.y = true

theorem Plane.Point.IsWithin.isFinite {p : Point Float32} {bound : ℝ} (h : p.IsWithin bound) :
    p.IsFinite :=
  ⟨h.x.isFinite, h.y.isFinite⟩

def Plane.Size.IsFinite {α : Type} [Scalar α] (s : Size α) : Prop :=
  Scalar.isFinite s.width = true ∧ Scalar.isFinite s.height = true

namespace Layout

section

variable {x a b c d : Float32} {r s t u : ℝ}

theorem same_zero_iff (hx : IsReal x r) : Scalar.same x Scalar.zero = true ↔ r = 0 := by
  have hsame : Scalar.same x Scalar.zero = true ↔ (x == Scalar.zero) = true := Iff.rfl
  rw [hsame, beq_iff]
  constructor
  · rintro ⟨a, ha, hzero⟩
    rw [Option.some.inj (ha.symm.trans hx)] at hzero
    exact EReal.coe_eq_coe_iff.1 (Option.some.inj (hzero.symm.trans isReal_zero))
  · rintro rfl
    exact ⟨_, hx, isReal_zero⟩

theorem pos_of_same_zero (hx : IsReal x r) (hr : 0 ≤ r)
    (h : Scalar.same x Scalar.zero = false) : 0 < r :=
  lt_of_le_of_ne hr fun hzero => Bool.eq_false_iff.1 h ((same_zero_iff hx).2 hzero.symm)

/-- The direction of a vector has coordinates of at most one, of which one is at least a half. -/
theorem exists_direction {p : Point Float32} (hx : IsReal p.x r) (hy : IsReal p.y s)
    (hlimit : 2 * max |r| |s| < single.limit)
    (hlength : Scalar.same p.length Scalar.zero = false) :
    ∃ c d, IsReal (p.x / p.length) c ∧ IsReal (p.y / p.length) d ∧ |c| ≤ 1 ∧ |d| ≤ 1 ∧
      (1 / 2 ≤ |c| ∨ 1 / 2 ≤ |d|) := by
  obtain ⟨l, hl, hlow, hhigh⟩ := exists_isReal_hypotenuse hx hy hlimit
  have hpos := pos_of_same_zero hl ((le_max_of_le_left (abs_nonneg r)).trans hlow) hlength
  obtain ⟨c, hc, hc_le, hc_half⟩ := exists_isReal_ratio hx hl hpos ((le_max_left _ _).trans hlow)
  obtain ⟨d, hd, hd_le, hd_half⟩ := exists_isReal_ratio hy hl hpos ((le_max_right _ _).trans hlow)
  refine ⟨c, d, hc, hd, hc_le, hd_le, ?_⟩
  rcases max_choice |r| |s| with h | h
  · rw [h] at hhigh
    exact .inl (hc_half hhigh)
  · rw [h] at hhigh
    exact .inr (hd_half hhigh)

/-- A product of a radius with a coordinate of at least a half is not much shorter than the radius,
even if it is rounded among the smallest numbers. -/
theorem le_four_mul (ha : IsReal a r) (hr : 0 ≤ r) (hc : IsReal c s) (hs : 1 / 2 ≤ |s|)
    (hproduct : IsReal (a * c) t) (htu : |t| ≤ u) (hu : least ≤ u) : r ≤ 4 * u := by
  have hhalf : r / 2 ≤ |r * s| := by
    rw [abs_mul, abs_of_nonneg hr, div_eq_mul_one_div]
    exact mul_le_mul_of_nonneg_left hs hr
  rcases le_total least |r * s| with hlarge | hsmall
  · have hle := hproduct.half_le (ha.mul hc) hlarge
    linarith
  · have hpos : 0 < least := zpow_pos two_pos _
    linarith

end

section

variable {a b c d : Float32} {r s t u : ℝ}

theorem two_mul_le {l : ℝ} (hr' : r ≤ 2 ^ 57) (hs : 0 ≤ s) (hs' : s ≤ 2 ^ 57)
    (hl : 0 ≤ l) (h : r ≤ 4 * l ∨ s ≤ 4 * l) : 2 * (r * s) ≤ 2 ^ 60 * l := by
  rcases h with h | h
  · calc 2 * (r * s) ≤ 2 * (4 * l * 2 ^ 57) :=
          mul_le_mul_of_nonneg_left (mul_le_mul h hs' hs (by linarith)) two_pos.le
      _ = 2 ^ 60 * l := by ring
  · calc 2 * (r * s) ≤ 2 * (2 ^ 57 * (4 * l)) :=
          mul_le_mul_of_nonneg_left (mul_le_mul hr' h hs (by norm_num)) two_pos.le
      _ = 2 ^ 60 * l := by ring

/-- The distance of the boundary of an ellipse from its centre is at most eight times the larger
radius, however its parts are rounded. -/
theorem isWithin_reach (ha : IsReal a r) (hr : 0 ≤ r) (hr' : r ≤ 2 ^ 57) (hb : IsReal b s)
    (hs : 0 ≤ s) (hs' : s ≤ 2 ^ 57) (hc : IsReal c t) (ht : |t| ≤ 1) (hd : IsReal d u)
    (hu : |u| ≤ 1) (hhalf : 1 / 2 ≤ |t| ∨ 1 / 2 ≤ |u|)
    (hdivisor : Scalar.same (EuclideanScalar.hypotenuse (b * c) (a * d)) Scalar.zero = false) :
    IsWithin (a * b / EuclideanScalar.hypotenuse (b * c) (a * d)) (2 ^ 60) := by
  obtain ⟨p, hp, hp_le⟩ := exists_isReal_of_abs_le (hb.mul hc) hb.rounded_eq (by
    rw [abs_mul, abs_of_nonneg hs]
    exact mul_le_of_le_one_right hs ht)
  obtain ⟨q, hq, hq_le⟩ := exists_isReal_of_abs_le (ha.mul hd) ha.rounded_eq (by
    rw [abs_mul, abs_of_nonneg hr]
    exact mul_le_of_le_one_right hr hu)
  obtain ⟨l, hl, hlow, -⟩ := exists_isReal_hypotenuse hp hq (by
    rw [limit_single]
    calc 2 * max |p| |q| ≤ 2 * 2 ^ 57 :=
          mul_le_mul_of_nonneg_left (max_le (hp_le.trans hs') (hq_le.trans hr')) two_pos.le
      _ < 2 ^ 128 := by norm_num)
  have hpos := pos_of_same_zero hl ((le_max_of_le_left (abs_nonneg p)).trans hlow) hdivisor
  have hleast := hl.least_le hpos
  have hrs : |r * s| ≤ 2 ^ 57 * 2 ^ 57 := by
    rw [abs_of_nonneg (mul_nonneg hr hs)]
    exact mul_le_mul hr' hs' hs (by norm_num)
  obtain ⟨m, hm, -⟩ := exists_isReal_of_abs_le (ha.mul hb)
    (rounded_two_pow (k := 57 + 57) (by norm_num)) (by rwa [pow_add])
  have hproduct : 2 * |r * s| ≤ 2 ^ 60 * l := by
    rw [abs_of_nonneg (mul_nonneg hr hs)]
    refine two_mul_le hr' hs hs' hpos.le (hhalf.symm.imp (fun h => ?_) fun h => ?_)
    · exact le_four_mul ha hr hd h hq ((le_max_right _ _).trans hlow) hleast
    · exact le_four_mul hb hs hc h hp ((le_max_left _ _).trans hlow) hleast
  refine exists_isReal_of_abs_le (hm.div hl hpos.ne') (rounded_two_pow (by norm_num)) ?_
  rw [abs_div, abs_of_pos hpos, div_le_iff₀ hpos]
  refine (hm.le_max (ha.mul hb)).trans (max_le hproduct (hleast.trans ?_))
  exact le_mul_of_one_le_left hpos.le (by norm_num)

end

theorem isWithin_boundaryPoint {center toward : Point Float32} {radii : Size Float32} {r s : ℝ}
    (hcenter : center.IsWithin (2 ^ 57)) (htoward : toward.IsWithin (2 ^ 57))
    (hwidth : IsReal radii.width r) (hr : 0 ≤ r) (hr' : r ≤ 2 ^ 57)
    (hheight : IsReal radii.height s) (hs : 0 ≤ s) (hs' : s ≤ 2 ^ 57) :
    (boundaryPoint center radii toward).IsWithin (2 ^ 61) := by
  have hself : center.IsWithin (2 ^ 61) :=
    ⟨hcenter.x.mono (by norm_num), hcenter.y.mono (by norm_num)⟩
  rw [boundaryPoint]
  dsimp only
  split
  · exact hself
  · next hlength =>
    split
    · exact hself
    · next hdivisor =>
      obtain ⟨p, hp, hp_le⟩ := htoward.x.sub hcenter.x (rounded_two_pow (k := 58) (by norm_num))
        (by norm_num)
      obtain ⟨q, hq, hq_le⟩ := htoward.y.sub hcenter.y (rounded_two_pow (k := 58) (by norm_num))
        (by norm_num)
      obtain ⟨c, d, hc, hd, hc_le, hd_le, hhalf⟩ := exists_direction (p := toward.sub center) hp hq
        (by
          rw [limit_single]
          calc 2 * max |p| |q| ≤ 2 * 2 ^ 58 :=
                mul_le_mul_of_nonneg_left (max_le hp_le hq_le) two_pos.le
            _ < 2 ^ 128 := by norm_num)
        (Bool.eq_false_iff.2 hlength)
      have hreach := isWithin_reach hwidth hr hr' hheight hs hs' hc hc_le hd hd_le hhalf
        (Bool.eq_false_iff.2 hdivisor)
      have hstep {x : Float32} (hx : IsWithin x 1) :=
        hx.mul hreach (rounded_two_pow (by norm_num)) (one_mul _).le
      exact ⟨hcenter.x.add (hstep ⟨c, hc, hc_le⟩) (rounded_two_pow (by norm_num)) (by norm_num),
        hcenter.y.add (hstep ⟨d, hd, hd_le⟩) (rounded_two_pow (by norm_num)) (by norm_num)⟩

section

variable {start stop : Point Float32}

theorem isWithin_midpoint (hstart : start.IsWithin (2 ^ 61)) (hstop : stop.IsWithin (2 ^ 61)) :
    (start.midpoint stop).IsWithin (2 ^ 62) :=
  ⟨(hstart.x.add hstop.x (rounded_two_pow (by norm_num)) (by norm_num)).half,
    (hstart.y.add hstop.y (rounded_two_pow (by norm_num)) (by norm_num)).half⟩

/-- A chord between points near the canvas is at least as long as its coordinates. -/
theorem exists_isReal_chord (hstart : start.IsWithin (2 ^ 61)) (hstop : stop.IsWithin (2 ^ 61)) :
    ∃ l, IsReal (start.distance stop) l ∧ 0 ≤ l ∧ l ≤ 2 ^ 63 ∧
      (stop.sub start).IsWithin l := by
  obtain ⟨p, hp, hp_le⟩ := hstop.x.sub hstart.x (rounded_two_pow (k := 62) (by norm_num))
    (by norm_num)
  obtain ⟨q, hq, hq_le⟩ := hstop.y.sub hstart.y (rounded_two_pow (k := 62) (by norm_num))
    (by norm_num)
  have hmax : 2 * max |p| |q| ≤ 2 ^ 63 := by
    calc 2 * max |p| |q| ≤ 2 * 2 ^ 62 :=
          mul_le_mul_of_nonneg_left (max_le hp_le hq_le) two_pos.le
      _ = 2 ^ 63 := by norm_num
  obtain ⟨l, hl, hlow, hhigh⟩ := exists_isReal_hypotenuse hp hq (hmax.trans_lt (by
    rw [limit_single]
    norm_num))
  exact ⟨l, hl, (le_max_of_le_left (abs_nonneg p)).trans hlow, hhigh.trans hmax,
    ⟨p, hp, (le_max_left _ _).trans hlow⟩, ⟨q, hq, (le_max_right _ _).trans hlow⟩⟩

theorem isWithin_unit {x y : Float32} {l : ℝ} (hx : IsWithin x l) (hy : IsReal y l) (hl : 0 < l)
    (hl' : l ≤ 2 ^ 63) (hfinite : Scalar.isFinite (Scalar.ofNat 1 / y) = true) :
    IsWithin (x * (Scalar.ofNat 1 / y)) 2 := by
  obtain ⟨q, hq⟩ := isFinite_iff.1 hfinite
  have hq_le := hq.le_max (isReal_ofNat_one.div hy hl.ne')
  refine hx.mul hq.isWithin isReal_ofNat_two.rounded_eq ?_
  rw [abs_of_pos (one_div_pos.2 hl)] at hq_le
  have hleast : (2 : ℝ) ^ 63 * least ≤ 2 := by
    rw [least_eq, ← zpow_natCast, ← zpow_add₀ two_ne_zero]
    calc (2 : ℝ) ^ (((63 : ℕ) : ℤ) + single.leastExponent) ≤ 2 ^ (1 : ℤ) :=
          zpow_le_zpow_right₀ one_le_two (by decide)
      _ = 2 := zpow_one 2
  have hpos : 0 < least := zpow_pos two_pos _
  calc l * |q| ≤ l * max (2 * (1 / l)) least := mul_le_mul_of_nonneg_left hq_le hl.le
    _ = max (l * (2 * (1 / l))) (l * least) := mul_max_of_nonneg _ _ hl.le
    _ ≤ 2 := max_le (by field_simp; exact le_rfl)
        ((mul_le_mul_of_nonneg_right hl' hpos.le).trans hleast)

theorem isWithin_bulge {x : Float32} {l : ℝ} (hx : IsReal x l) (hl : 0 ≤ l) (hl' : l ≤ 2 ^ 63) :
    IsWithin (x - EuclideanScalar.sqrt (Scalar.larger (x * x - Scalar.half x * Scalar.half x)
      Scalar.zero)) (2 ^ 65) := by
  have hwithin : IsWithin x (2 ^ 63) := ⟨l, hx, by rwa [abs_of_nonneg hl]⟩
  have hsquare := hwithin.mul hwithin (rounded_two_pow (k := 126) (by norm_num)) (by norm_num)
  have hquarter := hwithin.half.mul hwithin.half (rounded_two_pow (k := 126) (by norm_num))
    (by norm_num)
  obtain ⟨d, hd, hd_le⟩ := hsquare.sub hquarter (rounded_two_pow (k := 127) (by norm_num))
    (by norm_num)
  have hlarger : IsReal (Scalar.larger (x * x - Scalar.half x * Scalar.half x) Scalar.zero)
      (max d 0) := by
    have hreading := reading_largerSingle hd isReal_zero
    rwa [← EReal.coe_strictMono.monotone.map_max] at hreading
  have hroot : √(max d 0) ≤ 2 ^ 64 := by
    refine Real.sqrt_le_iff.2 ⟨by norm_num, max_le ((le_abs_self d).trans (hd_le.trans ?_)) ?_⟩
    · norm_num
    · norm_num
  refine hwithin.sub (exists_isReal_of_abs_le (hlarger.sqrt (le_max_right d 0))
    (rounded_two_pow (k := 64) (by norm_num)) ?_) (rounded_two_pow (by norm_num)) (by norm_num)
  rwa [abs_of_nonneg (Real.sqrt_nonneg _)]

/-- The middle of an arc is finite exactly if its chord can be brought to the length one. -/
theorem isFinite_arcMiddle_iff (hstart : start.IsWithin (2 ^ 61)) (hstop : stop.IsWithin (2 ^ 61)) :
    (arcMiddle start stop (start.distance stop)).IsFinite ↔
      Scalar.same (start.distance stop) Scalar.zero = true ∨
        Scalar.isFinite (Scalar.ofNat 1 / start.distance stop) = true := by
  obtain ⟨l, hl, hl_nonneg, hl_le, hchord⟩ := exists_isReal_chord hstart hstop
  have hmiddle := isWithin_midpoint hstart hstop
  rw [arcMiddle]
  dsimp only
  change
    (if Scalar.same (start.distance stop) Scalar.zero = true then _ else _ : Point _).IsFinite ↔ _
  split
  · next hzero => exact iff_of_true ⟨hmiddle.x.isFinite, hmiddle.y.isFinite⟩ (.inl hzero)
  · next hzero =>
    have hpos := pos_of_same_zero hl hl_nonneg (Bool.eq_false_iff.2 hzero)
    rw [or_iff_right hzero]
    constructor
    · intro h
      exact (isFinite_of_mul (isFinite_of_mul (isFinite_of_add h.1).2).1).2
    · intro hfinite
      have hbulge := isWithin_bulge hl hl_nonneg hl_le
      have hx := (isWithin_unit hchord.y hl hpos hl_le hfinite).mul hbulge
        (rounded_two_pow (k := 66) (by norm_num)) (by norm_num)
      have hy := (isWithin_unit hchord.x.neg hl hpos hl_le hfinite).mul hbulge
        (rounded_two_pow (k := 66) (by norm_num)) (by norm_num)
      exact ⟨(hmiddle.x.add hx (rounded_two_pow (k := 67) (by norm_num)) (by norm_num)).isFinite,
        (hmiddle.y.add hy (rounded_two_pow (k := 67) (by norm_num)) (by norm_num)).isFinite⟩

end

/-- Whether every number of a link is finite, but for the place of the label of an arc whose chord
has a length with no finite reciprocal. -/
structure Link.IsRoutedFinitely (link : Link Float32) : Prop where
  isFinite_sourceAnchor : link.sourceAnchor.IsFinite
  isFinite_targetAnchor : link.targetAnchor.IsFinite
  isFinite_radius : ∀ radius, link.curve = .arc radius → Scalar.isFinite radius = true
  isFinite_labelAnchor_iff : link.labelAnchor.IsFinite ↔ ∀ radius, link.curve = .arc radius →
    Scalar.same radius Scalar.zero = true ∨ Scalar.isFinite (Scalar.ofNat 1 / radius) = true

theorem isRoutedFinitely_connect {source target : SizedContext Float32 × Point Float32}
    {width height : ℝ} (hsource : source.1.LiesWithin width height)
    (hsource_center : source.1.center = some source.2)
    (htarget : target.1.LiesWithin width height)
    (htarget_center : target.1.center = some target.2) (hwidth : width ≤ 2 ^ 57)
    (hheight : height ≤ 2 ^ 57) (index : ℕ) (r : Relationship) :
    (connect index r source target).IsRoutedFinitely := by
  have hcenter {c : SizedContext Float32} (hc : c.LiesWithin width height) {p : Point Float32}
      (hp : c.center = some p) : p.IsWithin (2 ^ 57) := by
    obtain ⟨q, hq, hx, hy⟩ := hc.isWithin_center
    rw [Option.some.inj (hp.symm.trans hq)]
    exact ⟨hx.mono hwidth, hy.mono hheight⟩
  have hanchor {c : SizedContext Float32} (hc : c.LiesWithin width height)
      {center toward : Point Float32} (hp : center.IsWithin (2 ^ 57))
      (hq : toward.IsWithin (2 ^ 57)) :
      (boundaryPoint center c.radii toward).IsWithin (2 ^ 61) := by
    obtain ⟨a, ha, ha_nonneg, ha_le⟩ := hc.isReal_width
    obtain ⟨b, hb, hb_nonneg, hb_le⟩ := hc.isReal_height
    obtain ⟨a', ha', ha'_nonneg, ha'_le⟩ := exists_isReal_half ha ha_nonneg
    obtain ⟨b', hb', hb'_nonneg, hb'_le⟩ := exists_isReal_half hb hb_nonneg
    exact isWithin_boundaryPoint hp hq ha' ha'_nonneg (ha'_le.trans (ha_le.trans hwidth)) hb'
      hb'_nonneg (hb'_le.trans (hb_le.trans hheight))
  have hstart := hanchor hsource (hcenter hsource hsource_center) (hcenter htarget htarget_center)
  have hstop := hanchor htarget (hcenter htarget htarget_center) (hcenter hsource hsource_center)
  refine ⟨hstart.isFinite, hstop.isFinite, ?_, ?_⟩
  · intro radius hradius
    cases haligned : source.2.isAligned target.2 with
    | true =>
      rw [(connect_straight index r haligned).1] at hradius
      cases hradius
    | false =>
      rw [(connect_arc index r haligned).1] at hradius
      cases hradius
      obtain ⟨l, hl, -⟩ := exists_isReal_chord hstart hstop
      exact isFinite_iff.2 ⟨l, hl⟩
  · cases haligned : source.2.isAligned target.2 with
    | true =>
      obtain ⟨hcurve, hlabel⟩ := connect_straight index r haligned
      rw [hcurve, hlabel]
      exact iff_of_true (isWithin_midpoint hstart hstop).isFinite nofun
    | false =>
      obtain ⟨hcurve, hlabel⟩ := connect_arc index r haligned
      rw [hcurve, hlabel]
      refine (isFinite_arcMiddle_iff hstart hstop).trans ⟨?_, fun h => h _ rfl⟩
      rintro h radius hradius
      cases hradius
      exact h

end Layout

end ContextDiagram
