import ContextDiagram.Proofs.Number.Hypotenuse
import ContextDiagram.Proofs.Number.Magnitude

namespace ContextDiagram.Number

open BinaryFormat Plane

def IsWithin (x : Float32) (bound : ℝ) : Prop :=
  ∃ r, IsReal x r ∧ |r| ≤ bound

section

variable {x y : Float32} {r s a b c : ℝ}

theorem IsReal.isWithin (h : IsReal x r) : IsWithin x |r| :=
  ⟨r, h, le_rfl⟩

theorem IsWithin.isFinite (h : IsWithin x a) : x.isFinite = true :=
  isFinite_iff.2 ⟨h.choose, h.choose_spec.1⟩

theorem IsWithin.mono (h : IsWithin x a) (hab : a ≤ b) : IsWithin x b := by
  obtain ⟨r, hr, hle⟩ := h
  exact ⟨r, hr, hle.trans hab⟩

theorem IsWithin.neg (h : IsWithin x a) : IsWithin (-x) a := by
  obtain ⟨r, hr, hle⟩ := h
  exact ⟨-r, hr.neg, by rwa [abs_neg]⟩

theorem rounded_two_pow {k : ℕ} (h : k < 128) : single.rounded (2 ^ k) = (2 ^ k : ℝ) := by
  have hvalue : single.IsValue (2 ^ (k : ℤ)) :=
    isValue_two_zpow (le_trans (by decide) (Int.natCast_nonneg k))
  rw [zpow_natCast] at hvalue
  refine hvalue.rounded_eq ?_
  rw [abs_of_nonneg (by positivity), limit_single]
  exact pow_lt_pow_right₀ one_lt_two h

theorem IsWithin.add (hx : IsWithin x a) (hy : IsWithin y b) (hc : single.rounded c = c)
    (h : a + b ≤ c) : IsWithin (x + y) c := by
  obtain ⟨r, hr, hra⟩ := hx
  obtain ⟨s, hs, hsb⟩ := hy
  exact exists_isReal_of_abs_le (hr.add hs) hc
    ((abs_add_le r s).trans ((add_le_add hra hsb).trans h))

theorem IsWithin.sub (hx : IsWithin x a) (hy : IsWithin y b) (hc : single.rounded c = c)
    (h : a + b ≤ c) : IsWithin (x - y) c := by
  obtain ⟨r, hr, hra⟩ := hx
  obtain ⟨s, hs, hsb⟩ := hy
  exact exists_isReal_of_abs_le (hr.sub hs) hc
    ((abs_sub r s).trans ((add_le_add hra hsb).trans h))

theorem IsWithin.mul (hx : IsWithin x a) (hy : IsWithin y b) (hc : single.rounded c = c)
    (h : a * b ≤ c) : IsWithin (x * y) c := by
  obtain ⟨r, hr, hra⟩ := hx
  obtain ⟨s, hs, hsb⟩ := hy
  refine exists_isReal_of_abs_le (hr.mul hs) hc ?_
  rw [abs_mul]
  exact (mul_le_mul hra hsb (abs_nonneg s) ((abs_nonneg r).trans hra)).trans h

theorem isReal_ofNat {n : ℕ} (h : n < 2 ^ 24) : IsReal (Scalar.ofNat n) n :=
  (reading_ofNat n).trans (congrArg some (rounded_natCast h))

/-- As many as can be counted in 64 bits are not too many for single precision. -/
theorem exists_isReal_ofNat {n : ℕ} (h : n < 2 ^ 64) : ∃ l, IsReal (Scalar.ofNat n) l := by
  have hcast : (n : ℝ) ≤ 2 ^ 64 := by exact_mod_cast h.le
  obtain ⟨l, hl, -, -⟩ := exists_isReal_of_between (reading_ofNat n) isReal_zero.rounded_eq
    (rounded_two_pow (by norm_num)) (Nat.cast_nonneg n) hcast
  exact ⟨l, hl⟩

theorem IsReal.le_of_ofNat {m n : ℕ} (hr : IsReal (Scalar.ofNat m) r) (h : m ≤ n)
    (hs : IsReal (Scalar.ofNat n) s) : r ≤ s := by
  have hcast : (m : ℝ) ≤ n := by exact_mod_cast h
  have hmono := rounded_mono (f := single) hcast
  rw [Option.some.inj ((reading_ofNat m).symm.trans hr),
    Option.some.inj ((reading_ofNat n).symm.trans hs)] at hmono
  exact EReal.coe_le_coe_iff.1 hmono

theorem isReal_ofNat_one : IsReal (Scalar.ofNat 1) 1 := by
  have hone := isReal_ofNat (n := 1) (by norm_num)
  rwa [Nat.cast_one] at hone

theorem isReal_ofNat_two : IsReal (Scalar.ofNat 2) 2 := by
  have htwo := isReal_ofNat (n := 2) (by norm_num)
  rwa [Nat.cast_ofNat] at htwo

theorem exists_isReal_half (hx : IsReal x r) (hr : 0 ≤ r) :
    ∃ q, IsReal (Scalar.half x) q ∧ 0 ≤ q ∧ q ≤ r :=
  exists_isReal_of_between (hx.div isReal_ofNat_two two_ne_zero) isReal_zero.rounded_eq
    hx.rounded_eq (by positivity) (half_le_self hr)

theorem IsWithin.half (hx : IsWithin x a) : IsWithin (Scalar.half x) a := by
  obtain ⟨r, hr, hra⟩ := hx
  have habs : |r / 2| ≤ |r| := by
    rw [abs_div, abs_two]
    exact half_le_self (abs_nonneg r)
  obtain ⟨q, hq, hle⟩ := exists_isReal_of_abs_le (hr.div isReal_ofNat_two two_ne_zero)
    (hr.isValue.abs.rounded_eq (by rw [abs_abs]; exact hr.abs_lt)) habs
  exact ⟨q, hq, hle.trans hra⟩

theorem IsReal.eq_round (h : IsReal x r) (hrounded : reading x = some (single.rounded s)) :
    r = single.round s :=
  (eq_of_clamp_eq (Option.some.inj (hrounded.symm.trans h))).symm

/-- The distance of two numbers of single precision, and so that of one of them from zero. -/
noncomputable def least : ℝ :=
  (2 : ℕ) ^ single.leastExponent

theorem least_eq : least = 2 ^ single.leastExponent := by
  rw [least, Nat.cast_ofNat]

theorem IsReal.least_le (h : IsReal x r) (hr : 0 < r) : least ≤ r :=
  h.isValue.two_zpow_le hr

theorem IsReal.half_le (h : IsReal x r) (hrounded : reading x = some (single.rounded s))
    (hs : least ≤ |s|) : |s| / 2 ≤ |r| := by
  rw [h.eq_round hrounded, abs_round]
  exact half_le_round hs

theorem IsReal.le_max (h : IsReal x r) (hrounded : reading x = some (single.rounded s)) :
    |r| ≤ max (2 * |s|) least := by
  rw [h.eq_round hrounded, abs_round]
  exact round_le_max _

/-- The length of a vector is finite if twice its larger coordinate is. -/
theorem exists_isReal_hypotenuse (hx : IsReal x r) (hy : IsReal y s)
    (h : 2 * max |r| |s| < single.limit) :
    ∃ t, IsReal (hypotenuse x y) t ∧ max |r| |s| ≤ t ∧ t ≤ 2 * max |r| |s| := by
  obtain ⟨t, ht, hlow, hhigh⟩ := reading_hypotenuse hx hy
  have hvalue := hx.isValue_max hy
  have hnonneg : 0 ≤ max |r| |s| := le_max_of_le_left (abs_nonneg r)
  have hdouble := hvalue.mul_two_pow 1
  rw [pow_one, mul_comm] at hdouble
  have hlow' := hvalue.rounded_eq ((abs_of_nonneg hnonneg).trans_lt (by linarith))
  have hhigh' := hdouble.rounded_eq ((abs_of_nonneg (by linarith)).trans_lt h)
  exact exists_isReal_of_between ht hlow' hhigh' hlow hhigh

theorem IsReal.le_abs (h : IsReal x r) (hrounded : reading x = some (single.rounded s))
    (ha : single.IsValue a) (has : a ≤ |s|) : a ≤ |r| := by
  have hround := round_mono (f := single) has
  rw [ha.round_eq] at hround
  rwa [h.eq_round hrounded, abs_round]

theorem isValue_half : single.IsValue (1 / 2) := by
  have hhalf := isValue_two_zpow (f := single) (k := -1) (by decide)
  rwa [zpow_neg_one, ← one_div] at hhalf

/-- A part of a length stands to it in a ratio of at most one, and of at least a half if it is at
least half as long. -/
theorem exists_isReal_ratio (hx : IsReal x r) (hy : IsReal y s) (hs : 0 < s) (h : |r| ≤ s) :
    ∃ c, IsReal (x / y) c ∧ |c| ≤ 1 ∧ (s ≤ 2 * |r| → 1 / 2 ≤ |c|) := by
  have habs : |r / s| = |r| / s := by rw [abs_div, abs_of_pos hs]
  have hone : |r / s| ≤ 1 := by
    rw [habs]
    exact (div_le_one₀ hs).2 h
  obtain ⟨c, hc, hc_le⟩ := exists_isReal_of_abs_le (hx.div hy hs.ne') isReal_ofNat_one.rounded_eq
    hone
  refine ⟨c, hc, hc_le, fun hlarge => hc.le_abs (hx.div hy hs.ne') isValue_half ?_⟩
  rw [habs, le_div_iff₀ hs]
  linarith

end

end ContextDiagram.Number
