import ContextDiagram.Proofs.Number.Rounding

namespace ContextDiagram.Number

def signed (negative : Bool) (r : ℝ) : ℝ :=
  if negative then -r else r

theorem signed_zero (negative : Bool) : signed negative 0 = 0 := by
  cases negative with
  | false => rfl
  | true => exact neg_zero

theorem abs_signed (negative : Bool) (r : ℝ) : |signed negative r| = |r| := by
  cases negative with
  | false => rfl
  | true => exact abs_neg r

theorem signed_mul_signed (a b : Bool) (r s : ℝ) :
    signed a r * signed b s = signed (a != b) (r * s) := by
  cases a with
  | false =>
    cases b with
    | false => rfl
    | true => exact mul_neg r s
  | true =>
    cases b with
    | false => exact neg_mul r s
    | true => exact neg_mul_neg r s

theorem signed_div_signed (a b : Bool) (r s : ℝ) :
    signed a r / signed b s = signed (a != b) (r / s) := by
  have hinv : (signed b s)⁻¹ = signed b s⁻¹ := by
    cases b with
    | false => rfl
    | true => exact inv_neg
  rw [div_eq_mul_inv, hinv, signed_mul_signed, ← div_eq_mul_inv]

noncomputable def Datum.reading : Datum → Option EReal
  | .nan => none
  | .infinite negative => some (if negative then ⊥ else ⊤)
  | .finite negative significand exponent =>
    some (Real.toEReal (signed negative (significand * (2 : ℕ) ^ exponent)))

theorem Datum.reading_finite (negative : Bool) (m : ℕ) (e : ℤ) :
    (Datum.finite negative m e).reading = some (Real.toEReal (signed negative (m * 2 ^ e))) := by
  rw [reading, Nat.cast_ofNat]

theorem log_eq {x : ℝ} {k : ℤ} (hlow : 2 ^ k ≤ x) (hhigh : x < 2 ^ (k + 1)) : Int.log 2 x = k := by
  have hx : 0 < x := (by positivity : (0 : ℝ) < 2 ^ k).trans_le hlow
  apply le_antisymm
  · exact Int.lt_add_one_iff.1 ((Int.lt_zpow_iff_log_lt one_lt_two hx).1 (by exact_mod_cast hhigh))
  · exact (Int.zpow_le_iff_le_log one_lt_two hx).1 (by exact_mod_cast hlow)

theorem two_pow_toNat_div (k : ℤ) : (2 : ℝ) ^ (-k).toNat / 2 ^ k.toNat = 2 ^ (-k) := by
  rw [← zpow_natCast, ← zpow_natCast, ← zpow_sub₀ two_ne_zero]
  congr 1
  omega

/-- A number with a significand as its whole part has as many bits as the significand. -/
theorem log_eq_log2 {x : ℝ} {m : ℕ} {e : ℤ} (hm : m ≠ 0) (hlow : (m : ℝ) * 2 ^ e ≤ x)
    (hhigh : x < (m + 1) * 2 ^ e) : Int.log 2 x = m.log2 + e := by
  have hpow : (0 : ℝ) < 2 ^ e := by positivity
  have hle : (2 : ℝ) ^ m.log2 ≤ m := by exact_mod_cast Nat.log2_self_le hm
  have hlt : (m : ℝ) + 1 ≤ 2 ^ (m.log2 + 1) := by exact_mod_cast Nat.lt_log2_self
  apply log_eq
  · rw [zpow_add₀ two_ne_zero, zpow_natCast]
    exact (mul_le_mul_of_nonneg_right hle hpow.le).trans hlow
  · have hexponent : (m.log2 : ℤ) + e + 1 = (m.log2 + 1 : ℕ) + e := by
      push_cast
      ring
    rw [hexponent, zpow_add₀ two_ne_zero, zpow_natCast]
    exact hhigh.trans_le (mul_le_mul_of_nonneg_right hlt hpow.le)

theorem roundShift_eq (n places : ℕ) :
    (BinaryFormat.roundShift n places : ℤ) = roundEven (n / 2 ^ places) := by
  have hunit : (0 : ℝ) < (2 ^ places : ℕ) := by positivity
  have hmod : n % 2 ^ places < 2 ^ places := Nat.mod_lt n (Nat.two_pow_pos places)
  have hquotient : (n : ℝ) / 2 ^ places =
      ((n / 2 ^ places : ℕ) : ℤ) + ((n % 2 ^ places : ℕ) : ℝ) / (2 ^ places : ℕ) := by
    have hcast : (2 : ℝ) ^ places = (2 ^ places : ℕ) := by norm_cast
    rw [hcast, div_eq_iff hunit.ne', add_mul, div_mul_cancel₀ _ hunit.ne', mul_comm,
      Int.cast_natCast]
    exact_mod_cast (Nat.div_add_mod n (2 ^ places)).symm
  apply IsNearest.eq_roundEven
  rw [hquotient, BinaryFormat.roundShift]
  simp only [Nat.pow_eq, Bool.or_eq_true, Bool.and_eq_true, decide_eq_true_iff, beq_iff_eq]
  generalize n / 2 ^ places = quotient
  generalize n % 2 ^ places = rest at hmod ⊢
  generalize 2 ^ places = unit at hunit hmod ⊢
  have hhalf (x : ℝ) : (1 / 2 : ℝ) * x = x / 2 := by ring
  split
  · next h =>
    rw [Nat.cast_succ]
    refine isNearest_above ?_ ?_
    · rw [div_le_one hunit]
      exact_mod_cast hmod.le
    · rw [lt_div_iff₀ hunit, div_eq_iff hunit.ne', hhalf, div_lt_iff₀ two_pos,
        eq_div_iff two_ne_zero]
      refine h.imp (fun h => ?_) fun h => ?_
      · have h' : unit < rest * 2 := by omega
        exact_mod_cast h'
      · have h' : rest * 2 = unit := by omega
        refine ⟨by exact_mod_cast h', ?_⟩
        rw [Int.even_coe_nat, Nat.not_even_iff]
        exact h.2
  · next h =>
    rw [not_or, not_and] at h
    refine isNearest_below (by positivity) ?_
    rw [div_lt_iff₀ hunit, div_eq_iff hunit.ne', hhalf, lt_div_iff₀ two_pos, eq_div_iff two_ne_zero]
    have hle : rest * 2 ≤ unit := by omega
    rcases hle.lt_or_eq with hlt | heq
    · exact .inl (by exact_mod_cast hlt)
    · refine .inr ⟨by exact_mod_cast heq, ?_⟩
      rw [Int.even_coe_nat, Nat.even_iff]
      have := h.2 (by omega)
      omega

namespace BinaryFormat

instance : NeZero single.precision := ⟨by decide⟩

instance : NeZero single.exponentBits := ⟨by decide⟩

instance : NeZero double.precision := ⟨by decide⟩

instance : NeZero double.exponentBits := ⟨by decide⟩

variable (f : BinaryFormat)

/-- Whether a significand and an exponent are those of a pattern: only the smallest numbers may do
without the first bit of the significand. -/
structure IsCanonical (significand : ℕ) (exponent : ℤ) : Prop where
  lt : significand < 2 * f.fractionRange
  le : f.leastExponent ≤ exponent
  isNormal_or : f.fractionRange ≤ significand ∨ exponent = f.leastExponent

def pattern (significand : ℕ) (exponent : ℤ) : ℕ :=
  significand + (exponent - f.leastExponent).toNat * f.fractionRange

def infinityPattern : ℕ :=
  f.topField * f.fractionRange

def signBit (negative : Bool) : ℕ :=
  if negative then Nat.pow 2 f.exponentBits * f.fractionRange else 0

variable {f}

theorem fractionRange_pos : 0 < f.fractionRange :=
  Nat.two_pow_pos _

theorem two_mul_fractionRange [NeZero f.precision] : 2 * f.fractionRange = 2 ^ f.precision := by
  have h := NeZero.pos f.precision
  rw [fractionRange, Nat.pow_eq, ← Nat.pow_succ', Nat.succ_eq_add_one, Nat.sub_add_cancel h]

theorem topField_add_one : f.topField + 1 = 2 ^ f.exponentBits :=
  Nat.sub_add_cancel Nat.one_le_two_pow

theorem signBit_eq (negative : Bool) :
    f.signBit negative = negative.toNat * 2 ^ f.exponentBits * f.fractionRange := by
  cases negative with
  | false => simp [signBit]
  | true => simp [signBit]

section

variable {m n : ℕ} {e : ℤ}

theorem decode_signBit_add (negative : Bool) (h : n < 2 ^ f.exponentBits * f.fractionRange) :
    f.decode (f.signBit negative + n) =
      if n / f.fractionRange = f.topField then
        if n % f.fractionRange = 0 then .infinite negative else .nan
      else if n / f.fractionRange = 0 then .finite negative (n % f.fractionRange) f.leastExponent
      else .finite negative (f.fractionRange + n % f.fractionRange)
        (f.leastExponent + ((n / f.fractionRange : ℕ) - 1)) := by
  have hrange := f.fractionRange_pos
  have hfield : n / f.fractionRange < 2 ^ f.exponentBits := Nat.div_lt_of_lt_mul (by linarith)
  have hsign := f.signBit_eq negative
  have hmod : (f.signBit negative + n) % f.fractionRange = n % f.fractionRange := by
    rw [hsign, Nat.mul_add_mod_self_right]
  have hdiv : (f.signBit negative + n) / f.fractionRange =
      negative.toNat * 2 ^ f.exponentBits + n / f.fractionRange := by
    rw [hsign, Nat.add_comm, Nat.add_mul_div_right _ _ hrange, Nat.add_comm]
  have hfieldMod : (negative.toNat * 2 ^ f.exponentBits + n / f.fractionRange) %
      2 ^ f.exponentBits = n / f.fractionRange := by
    rw [Nat.mul_add_mod_self_right, Nat.mod_eq_of_lt hfield]
  have hfieldDiv : (negative.toNat * 2 ^ f.exponentBits + n / f.fractionRange) /
      2 ^ f.exponentBits = negative.toNat := by
    rw [Nat.add_comm, Nat.add_mul_div_right _ _ (Nat.two_pow_pos _), Nat.div_eq_of_lt hfield,
      Nat.zero_add]
  have hnegative : (negative.toNat % 2 == 1) = negative := by
    cases negative <;> rfl
  rw [decode]
  simp only [Nat.pow_eq]
  rw [hmod, hdiv, hfieldMod, hfieldDiv, hnegative]

theorem decode_infinityPattern [NeZero f.exponentBits] (negative : Bool) :
    f.decode (f.signBit negative + f.infinityPattern) = .infinite negative := by
  have hrange := f.fractionRange_pos
  have htop := f.topField_add_one
  have hlt : f.infinityPattern < 2 ^ f.exponentBits * f.fractionRange :=
    Nat.mul_lt_mul_of_pos_right (by omega) hrange
  rw [decode_signBit_add negative hlt, infinityPattern, Nat.mul_div_cancel _ hrange, if_pos rfl,
    Nat.mul_mod_left, if_pos rfl]

/-- The first bit of a significand moves into the exponent field. -/
theorem fields_pattern (h : f.IsCanonical m e) (hnormal : f.fractionRange ≤ m) :
    f.pattern m e / f.fractionRange = (e - f.leastExponent).toNat + 1 ∧
      f.pattern m e % f.fractionRange = m - f.fractionRange := by
  have hrange := f.fractionRange_pos
  have hlt := h.lt
  have hsplit : f.pattern m e = m - f.fractionRange +
      ((e - f.leastExponent).toNat + 1) * f.fractionRange := by
    rw [pattern, Nat.add_mul]
    omega
  rw [hsplit, Nat.add_mul_div_right _ _ hrange, Nat.add_mul_mod_self_right,
    Nat.div_eq_of_lt (by omega), Nat.mod_eq_of_lt (by omega), Nat.zero_add]
  exact ⟨rfl, rfl⟩

theorem pattern_of_lt (h : f.IsCanonical m e) (hlt : m < f.fractionRange) :
    e = f.leastExponent ∧ f.pattern m e = m := by
  have he := h.isNormal_or.resolve_left hlt.not_ge
  rw [pattern, he, sub_self, Int.toNat_zero, Nat.zero_mul, Nat.add_zero]
  exact ⟨rfl, rfl⟩

theorem decode_pattern (negative : Bool) (h : f.IsCanonical m e)
    (hlt : f.pattern m e < f.infinityPattern) :
    f.decode (f.signBit negative + f.pattern m e) = .finite negative m e := by
  have hrange := f.fractionRange_pos
  have htop := f.topField_add_one
  have hfield : f.pattern m e / f.fractionRange < f.topField := Nat.div_lt_of_lt_mul (by
    rw [Nat.mul_comm]
    exact hlt)
  have hbound : f.pattern m e < 2 ^ f.exponentBits * f.fractionRange :=
    hlt.trans_le (Nat.mul_le_mul_right _ (by omega))
  rw [decode_signBit_add negative hbound, if_neg hfield.ne]
  by_cases hnormal : f.fractionRange ≤ m
  · obtain ⟨hdiv, hmod⟩ := fields_pattern h hnormal
    have hexponent : f.leastExponent + (((e - f.leastExponent).toNat + 1 : ℕ) - 1 : ℤ) = e := by
      have := h.le
      omega
    rw [hdiv, hmod, if_neg (Nat.succ_ne_zero _), Nat.add_sub_cancel' hnormal, hexponent]
  · obtain ⟨he, hpattern⟩ := pattern_of_lt h (not_le.1 hnormal)
    rw [hpattern, Nat.div_eq_of_lt (not_le.1 hnormal), if_pos rfl,
      Nat.mod_eq_of_lt (not_le.1 hnormal), he]

theorem leastExponent_eq :
    f.leastExponent = 3 - (2 ^ (f.exponentBits - 1) : ℕ) - f.precision := by
  rw [leastExponent, Nat.cast_pow]
  rfl

theorem topField_eq [NeZero f.exponentBits] : f.topField + 1 = 2 * 2 ^ (f.exponentBits - 1) := by
  rw [topField_add_one, ← Nat.pow_succ', Nat.succ_eq_add_one,
    Nat.sub_add_cancel (NeZero.pos f.exponentBits)]

theorem fractionRange_mul_zpow [NeZero f.precision] (e : ℤ) :
    (f.fractionRange : ℝ) * 2 ^ e = 2 ^ (f.precision - 1 + e) := by
  have hprecision := NeZero.pos f.precision
  rw [fractionRange, Nat.pow_eq, zpow_add₀ two_ne_zero, Nat.cast_pow, Nat.cast_ofNat,
    ← zpow_natCast, Nat.cast_sub hprecision, Nat.cast_one]

theorem IsCanonical.lt_two_zpow [NeZero f.precision] (h : f.IsCanonical m e) :
    (m : ℝ) * 2 ^ e < 2 ^ (f.precision + e) := by
  have hlt : (m : ℝ) < 2 * f.fractionRange := by exact_mod_cast h.lt
  have hexponent : (f.precision : ℤ) + e = 1 + (f.precision - 1 + e) := by ring
  rw [hexponent, zpow_add₀ two_ne_zero, zpow_one, ← fractionRange_mul_zpow, ← mul_assoc]
  exact mul_lt_mul_of_pos_right hlt (by positivity)

theorem two_zpow_le_of_normal [NeZero f.precision] (h : f.fractionRange ≤ m) :
    (2 : ℝ) ^ (f.precision - 1 + e) ≤ m * 2 ^ e := by
  rw [← fractionRange_mul_zpow]
  exact mul_le_mul_of_nonneg_right (by exact_mod_cast h) (by positivity)

theorem pattern_lt_iff [NeZero f.precision] [NeZero f.exponentBits] (h : f.IsCanonical m e) :
    f.pattern m e < f.infinityPattern ↔ (m : ℝ) * 2 ^ e < f.limit := by
  have hrange := f.fractionRange_pos
  have hleast := f.leastExponent_eq
  have htop := f.topField_eq
  have hle := h.le
  have hhalf : 0 < 2 ^ (f.exponentBits - 1) := Nat.two_pow_pos _
  rw [infinityPattern, ← Nat.div_lt_iff_lt_mul hrange, limit_eq, ← zpow_natCast]
  generalize 2 ^ (f.exponentBits - 1) = half at hleast htop hhalf ⊢
  by_cases hnormal : f.fractionRange ≤ m
  · rw [(fields_pattern h hnormal).1]
    constructor
    · intro hlt
      exact h.lt_two_zpow.trans_le (zpow_le_zpow_right₀ one_le_two (by omega))
    · intro hlt
      have hexponent := (two_zpow_le_of_normal hnormal).trans_lt hlt
      rw [zpow_lt_zpow_iff_right₀ one_lt_two] at hexponent
      omega
  · obtain ⟨he, hpattern⟩ := pattern_of_lt h (not_le.1 hnormal)
    rw [hpattern, Nat.div_eq_of_lt (not_le.1 hnormal)]
    refine iff_of_true (by omega) ?_
    have hlt : (m : ℝ) < f.fractionRange := by exact_mod_cast not_le.1 hnormal
    calc (m : ℝ) * 2 ^ e < f.fractionRange * 2 ^ e := mul_lt_mul_of_pos_right hlt (by positivity)
      _ = 2 ^ (f.precision - 1 + e) := fractionRange_mul_zpow e
      _ ≤ 2 ^ (half : ℤ) := zpow_le_zpow_right₀ one_le_two (by omega)

/-- A significand that rounding has carried to the next power of two moves on to the next exponent,
and its pattern stays the same. -/
theorem exists_isCanonical (hm : m ≤ 2 * f.fractionRange) (he : f.leastExponent ≤ e)
    (h : f.fractionRange ≤ m ∨ e = f.leastExponent) :
    ∃ m' e', f.IsCanonical m' e' ∧ (m' : ℝ) * 2 ^ e' = m * 2 ^ e ∧
      f.pattern m' e' = f.pattern m e := by
  rcases hm.lt_or_eq with hlt | heq
  · exact ⟨m, e, ⟨hlt, he, h⟩, rfl, rfl⟩
  · have hrange := f.fractionRange_pos
    refine ⟨f.fractionRange, e + 1, ⟨by omega, by omega, .inl le_rfl⟩, ?_, ?_⟩
    · rw [heq, zpow_add₀ two_ne_zero, zpow_one]
      push_cast
      ring
    · have htoNat : (e + 1 - f.leastExponent).toNat = (e - f.leastExponent).toNat + 1 := by omega
      rw [pattern, pattern, heq, htoNat]
      ring

/-- The significand of a rounded number may be the next power of two, and it has its first bit
unless the number is one of the smallest. -/
theorem significand_bounds [NeZero f.precision] {r : ℝ} (hr : 0 < r)
    (hm : (m : ℤ) = roundEven (r / 2 ^ f.spacing r)) :
    m ≤ 2 * f.fractionRange ∧ (f.fractionRange ≤ m ∨ f.spacing r = f.leastExponent) := by
  have hpow : (0 : ℝ) < 2 ^ f.spacing r := by positivity
  have hspacing : Int.log 2 r + 1 - f.precision ≤ f.spacing r := by
    rw [spacing, abs_of_pos hr]
    exact le_max_left _ _
  constructor
  · have hhigh : r / 2 ^ f.spacing r ≤ (2 * f.fractionRange : ℕ) := by
      rw [div_le_iff₀ hpow, two_mul_fractionRange, Nat.cast_pow, Nat.cast_ofNat, ← zpow_natCast,
        ← zpow_add₀ two_ne_zero]
      calc r ≤ 2 ^ (Int.log 2 r + 1) := by
            exact_mod_cast (Int.lt_zpow_succ_log_self one_lt_two r).le
        _ ≤ 2 ^ (f.precision + f.spacing r) := zpow_le_zpow_right₀ one_le_two (by omega)
    have hround := roundEven_mono hhigh
    rw [← hm, roundEven_natCast] at hround
    exact_mod_cast hround
  · rcases max_choice (Int.log 2 r + 1 - f.precision) f.leastExponent with h | h
    · left
      have hexponent : f.precision - 1 + f.spacing r = Int.log 2 r := by
        rw [spacing, abs_of_pos hr, h]
        ring
      have hlow : (f.fractionRange : ℝ) ≤ r / 2 ^ f.spacing r := by
        rw [le_div_iff₀ hpow, fractionRange_mul_zpow, hexponent]
        exact_mod_cast Int.zpow_log_le_self one_lt_two hr
      have hround := roundEven_mono hlow
      rw [← hm, roundEven_natCast] at hround
      exact_mod_cast hround
    · right
      rw [spacing, abs_of_pos hr, h]

theorem exists_round_eq [NeZero f.precision] {r : ℝ} (hr : 0 < r)
    (hm : (m : ℤ) = roundEven (r / 2 ^ f.spacing r)) :
    ∃ m' e', f.IsCanonical m' e' ∧ (m' : ℝ) * 2 ^ e' = f.round r ∧
      f.pattern m' e' = f.pattern m (f.spacing r) := by
  obtain ⟨hle, hnormal⟩ := significand_bounds hr hm
  obtain ⟨m', e', hcanonical, hvalue, hpattern⟩ :=
    exists_isCanonical hle leastExponent_le_spacing hnormal
  refine ⟨m', e', hcanonical, hvalue.trans ?_, hpattern⟩
  rw [round, roundTo_eq, ← hm, Int.cast_natCast]

theorem isCanonical_zero : f.IsCanonical 0 f.leastExponent :=
  ⟨Nat.mul_pos two_pos f.fractionRange_pos, le_rfl, .inr rfl⟩

/-- The pattern that is found for a number is that of the number it is rounded to. -/
theorem nearest_eq [NeZero f.precision] (m : ℕ) (e : ℤ) :
    ∃ m' e', f.IsCanonical m' e' ∧ (m' : ℝ) * 2 ^ e' = f.round (m * 2 ^ e) ∧
      f.nearest m e = min (f.pattern m' e') f.infinityPattern := by
  by_cases hzero : m = 0
  · refine ⟨0, f.leastExponent, isCanonical_zero, ?_, ?_⟩
    · rw [hzero, Nat.cast_zero, zero_mul, zero_mul, round_zero]
    · rw [nearest, if_pos hzero, pattern, sub_self, Int.toNat_zero, Nat.zero_mul, Nat.zero_min]
  · have hpos : (0 : ℝ) < m * 2 ^ e := by
      have hm : (0 : ℝ) < m := by exact_mod_cast Nat.pos_of_ne_zero hzero
      positivity
    have hlog : Int.log 2 |(m : ℝ) * 2 ^ e| = m.log2 + e := by
      rw [abs_of_pos hpos]
      refine log_eq_log2 hzero le_rfl (mul_lt_mul_of_pos_right (lt_add_one _) (by positivity))
    have hspacing : e + max ((m.log2 : ℤ) + 1 - f.precision) (f.leastExponent - e) =
        f.spacing (m * 2 ^ e) := by
      rw [spacing, hlog]
      omega
    rw [nearest, if_neg hzero]
    dsimp only
    generalize max ((m.log2 : ℤ) + 1 - f.precision) (f.leastExponent - e) = places at hspacing ⊢
    have hquotient : ((m * 2 ^ (-places).toNat : ℕ) : ℝ) / 2 ^ places.toNat =
        m * 2 ^ e / 2 ^ f.spacing (m * 2 ^ e) := by
      rw [← hspacing, Nat.cast_mul, Nat.cast_pow, Nat.cast_ofNat, mul_div_assoc,
        two_pow_toNat_div, mul_div_assoc, ← zpow_sub₀ two_ne_zero, sub_add_cancel_left]
    have hround := roundShift_eq (m * 2 ^ (-places).toNat) places.toNat
    rw [hquotient] at hround
    obtain ⟨m', e', hcanonical, hvalue, hpattern⟩ := exists_round_eq hpos hround
    refine ⟨m', e', hcanonical, hvalue, ?_⟩
    rw [hpattern, pattern, hspacing]
    rfl

theorem round_signed (negative : Bool) (r : ℝ) :
    f.round (signed negative r) = signed negative (f.round r) := by
  cases negative with
  | false => rfl
  | true => exact round_neg r

theorem reading_decode_pattern [NeZero f.precision] [NeZero f.exponentBits] (negative : Bool)
    (h : f.IsCanonical m e) :
    (f.decode (f.signBit negative + min (f.pattern m e) f.infinityPattern)).reading =
      some (f.clamp (signed negative (m * 2 ^ e))) := by
  have hnonneg : 0 ≤ (m : ℝ) * 2 ^ e := by positivity
  rcases lt_or_ge (f.pattern m e) f.infinityPattern with hlt | hge
  · have hlimit := (pattern_lt_iff h).1 hlt
    rw [← abs_of_nonneg hnonneg, ← abs_signed negative] at hlimit
    rw [min_eq_left hlt.le, decode_pattern negative h hlt, Datum.reading_finite,
      clamp_of_abs_lt hlimit]
  · have hlimit : f.limit ≤ (m : ℝ) * 2 ^ e := not_lt.1 (mt (pattern_lt_iff h).2 hge.not_gt)
    have hclamp : f.clamp (m * 2 ^ e) = ⊤ := if_pos hlimit
    rw [min_eq_right hge, decode_infinityPattern, Datum.reading]
    cases negative with
    | false => exact congrArg some hclamp.symm
    | true =>
      have hneg := (clamp_neg ((m : ℝ) * 2 ^ e)).trans (congrArg Neg.neg hclamp)
      exact congrArg some hneg.symm

theorem reading_decode_encode [NeZero f.precision] [NeZero f.exponentBits] (negative : Bool)
    (m : ℕ) (e : ℤ) :
    (f.decode (f.encode (.finite negative m e))).reading =
      some (f.rounded (signed negative (m * 2 ^ e))) := by
  obtain ⟨m', e', hcanonical, hvalue, hnearest⟩ := nearest_eq (f := f) m e
  have hencode : f.encode (.finite negative m e) = f.signBit negative + f.nearest m e := rfl
  rw [hencode, hnearest, reading_decode_pattern negative hcanonical, hvalue, rounded, round_signed]

theorem isCanonical_of_decode {bits : ℕ} {negative : Bool}
    (h : f.decode bits = .finite negative m e) :
    f.IsCanonical m e ∧ f.pattern m e < f.infinityPattern := by
  have hrange := f.fractionRange_pos
  have hfraction := Nat.mod_lt bits hrange
  have htop := f.topField_add_one
  have hfield : bits / f.fractionRange % 2 ^ f.exponentBits < 2 ^ f.exponentBits :=
    Nat.mod_lt _ (Nat.two_pow_pos _)
  rw [decode] at h
  simp only [Nat.pow_eq] at h
  generalize bits % f.fractionRange = fraction at h hfraction
  generalize bits / f.fractionRange % 2 ^ f.exponentBits = field at h hfield
  split at h
  · split at h
    · cases h
    · cases h
  · next hne =>
    split at h
    · next hzero =>
      cases h
      refine ⟨⟨by omega, le_rfl, .inr rfl⟩, ?_⟩
      rw [pattern, sub_self, Int.toNat_zero, Nat.zero_mul, Nat.add_zero]
      exact hfraction.trans_le (Nat.le_mul_of_pos_left _ (by omega))
    · next hzero =>
      cases h
      refine ⟨⟨by omega, by omega, .inl (by omega)⟩, ?_⟩
      have htoNat : (f.leastExponent + ((field : ℤ) - 1) - f.leastExponent).toNat = field - 1 := by
        omega
      have hsplit : f.fractionRange + (field - 1) * f.fractionRange = field * f.fractionRange := by
        rw [Nat.add_comm, ← Nat.succ_mul, Nat.succ_eq_add_one,
          Nat.sub_add_cancel (Nat.pos_of_ne_zero hzero)]
      have hle : (field + 1) * f.fractionRange ≤ f.infinityPattern :=
        Nat.mul_le_mul_right _ (by omega)
      rw [pattern, htoNat]
      rw [Nat.add_mul, Nat.one_mul] at hle
      omega

theorem le_spacing_of_two_zpow_le {r : ℝ} {k : ℤ} (hr : 0 < r) (h : (2 : ℝ) ^ k ≤ r) :
    max (k + 1 - f.precision) f.leastExponent ≤ f.spacing r := by
  have hlog : k ≤ Int.log 2 r := (Int.zpow_le_iff_le_log one_lt_two hr).1 (by exact_mod_cast h)
  rw [spacing, abs_of_pos hr]
  exact max_le_max_right _ (by omega)

/-- A significand with its first bit has no bit to spare. -/
theorem le_spacing_of_fractionRange_le [NeZero f.precision] (h : f.fractionRange ≤ m) :
    e ≤ f.spacing (m * 2 ^ e) := by
  have hm : 0 < m := f.fractionRange_pos.trans_le h
  have hr : 0 < (m : ℝ) * 2 ^ e := mul_pos (by exact_mod_cast hm) (by positivity)
  have hspacing := le_spacing_of_two_zpow_le (f := f) hr (two_zpow_le_of_normal h)
  exact (le_of_eq (by ring)).trans ((le_max_left _ _).trans hspacing)

end

end BinaryFormat

end ContextDiagram.Number
