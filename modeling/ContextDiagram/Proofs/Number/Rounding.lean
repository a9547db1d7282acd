import Mathlib
import ContextDiagram.Number.Binary

namespace ContextDiagram.Number

/-- Whether an integer is nearest to a number, and even if another one is as near. -/
structure IsNearest (n : ℤ) (y : ℝ) : Prop where
  near : |y - n| ≤ 1 / 2
  even : |y - n| = 1 / 2 → Even n

theorem IsNearest.mono {m n : ℤ} {x y : ℝ} (hm : IsNearest m x) (hn : IsNearest n y) (h : x ≤ y) :
    m ≤ n := by
  by_contra hlt
  have hstep : n + 1 ≤ m := not_le.1 hlt
  have hcast : (n : ℝ) + 1 ≤ m := by exact_mod_cast hstep
  obtain ⟨hlow, -⟩ := abs_le.1 hm.near
  obtain ⟨-, hhigh⟩ := abs_le.1 hn.near
  -- Both numbers lie halfway between the two integers, which would both be even then.
  have hx : x - m = -(1 / 2) := by linarith
  have hy : y - n = 1 / 2 := by linarith
  have hm_even := hm.even (by rw [hx, abs_neg, abs_of_pos one_half_pos])
  have hn_even := hn.even (by rw [hy, abs_of_pos one_half_pos])
  have hsucc : (m : ℝ) = n + 1 := by linarith
  have hsucc' : m = n + 1 := by exact_mod_cast hsucc
  rw [hsucc', Int.even_add_one] at hm_even
  exact hm_even hn_even

theorem IsNearest.neg {n : ℤ} {y : ℝ} (h : IsNearest n y) : IsNearest (-n) (-y) := by
  have habs : |-y - (-n : ℤ)| = |y - n| := by
    rw [Int.cast_neg, ← abs_neg]
    ring_nf
  constructor
  · rw [habs]
    exact h.near
  · intro hhalf
    rw [habs] at hhalf
    exact (h.even hhalf).neg

theorem isNearest_intCast (n : ℤ) : IsNearest n n := by
  constructor
  · rw [sub_self, abs_zero]
    exact one_half_pos.le
  · intro h
    rw [sub_self, abs_zero] at h
    norm_num at h

section

variable {n : ℤ} {part : ℝ}

theorem isNearest_below (hpart : 0 ≤ part) (h : part < 1 / 2 ∨ part = 1 / 2 ∧ Even n) :
    IsNearest n (n + part) := by
  constructor
  · rw [add_sub_cancel_left, abs_of_nonneg hpart]
    exact h.elim le_of_lt fun h => h.1.le
  · intro hhalf
    rw [add_sub_cancel_left, abs_of_nonneg hpart] at hhalf
    rcases h with h | h
    · exact absurd hhalf h.ne
    · exact h.2

theorem isNearest_above (hpart : part ≤ 1) (h : 1 / 2 < part ∨ part = 1 / 2 ∧ ¬Even n) :
    IsNearest (n + 1) (n + part) := by
  have habs : |(n : ℝ) + part - (n + 1 : ℤ)| = 1 - part := by
    rw [Int.cast_add, Int.cast_one, add_sub_add_left_eq_sub, abs_sub_comm,
      abs_of_nonneg (sub_nonneg.2 hpart)]
  constructor
  · rw [habs]
    rcases h with h | h
    · linarith
    · linarith [h.1]
  · intro hhalf
    rw [habs] at hhalf
    rw [Int.even_add_one]
    rcases h with h | h
    · linarith
    · exact h.2

end

open Classical in
noncomputable def roundEven (y : ℝ) : ℤ :=
  if Int.fract y < 1 - Int.fract y ∨ Int.fract y = 1 - Int.fract y ∧ Even ⌊y⌋ then ⌊y⌋
  else ⌊y⌋ + 1

theorem isNearest_roundEven (y : ℝ) : IsNearest (roundEven y) y := by
  have hsplit := Int.floor_add_fract y
  rw [roundEven]
  split
  · next h =>
    have hnearest := isNearest_below (n := ⌊y⌋) (Int.fract_nonneg y)
      (h.imp (fun h => by linarith) (And.imp_left fun h => by linarith))
    rwa [hsplit] at hnearest
  · next h =>
    rw [not_or, not_lt, not_and] at h
    have hnearest := isNearest_above (n := ⌊y⌋) (Int.fract_lt_one y).le
      (h.1.lt_or_eq.imp (fun hlt => by linarith) fun heq => ⟨by linarith, h.2 heq.symm⟩)
    rwa [hsplit] at hnearest

theorem IsNearest.eq_roundEven {n : ℤ} {y : ℝ} (h : IsNearest n y) : n = roundEven y :=
  le_antisymm (h.mono (isNearest_roundEven y) le_rfl) ((isNearest_roundEven y).mono h le_rfl)

theorem roundEven_mono : Monotone roundEven :=
  fun x y h => (isNearest_roundEven x).mono (isNearest_roundEven y) h

theorem roundEven_intCast (n : ℤ) : roundEven n = n :=
  (isNearest_intCast n).eq_roundEven.symm

theorem roundEven_natCast (n : ℕ) : roundEven n = n := by
  have h := roundEven_intCast n
  rwa [Int.cast_natCast] at h

theorem roundEven_neg (y : ℝ) : roundEven (-y) = -roundEven y :=
  (isNearest_roundEven y).neg.eq_roundEven.symm

noncomputable def roundTo (e : ℤ) (r : ℝ) : ℝ :=
  roundEven (r / (2 : ℕ) ^ e) * (2 : ℕ) ^ e

theorem roundTo_eq (e : ℤ) (r : ℝ) : roundTo e r = roundEven (r / 2 ^ e) * 2 ^ e := by
  rw [roundTo, Nat.cast_ofNat]

theorem roundTo_mono (e : ℤ) : Monotone (roundTo e) := by
  intro r s h
  have hpow : (0 : ℝ) < 2 ^ e := by positivity
  have hround := roundEven_mono (div_le_div_of_nonneg_right h hpow.le)
  rw [roundTo_eq, roundTo_eq]
  exact mul_le_mul_of_nonneg_right (by exact_mod_cast hround) hpow.le

theorem roundTo_of_multiple {e e' n : ℤ} (h : e ≤ e') :
    roundTo e ((n : ℝ) * 2 ^ e') = n * 2 ^ e' := by
  have hquotient : (n : ℝ) * 2 ^ e' / 2 ^ e = (n * 2 ^ (e' - e).toNat : ℤ) := by
    rw [div_eq_iff (zpow_ne_zero _ two_ne_zero)]
    push_cast
    rw [mul_assoc, ← zpow_natCast, ← zpow_add₀ two_ne_zero, Int.toNat_of_nonneg (by omega),
      sub_add_cancel]
  rw [roundTo_eq, hquotient, roundEven_intCast, ← hquotient,
    div_mul_cancel₀ _ (zpow_ne_zero _ two_ne_zero)]

theorem roundTo_zero (e : ℤ) : roundTo e 0 = 0 := by
  have h := roundTo_of_multiple (n := 0) (le_refl e)
  rwa [Int.cast_zero, zero_mul] at h

theorem roundTo_two_zpow {e k : ℤ} (h : e ≤ k) : roundTo e (2 ^ k) = 2 ^ k := by
  have hone := roundTo_of_multiple (n := 1) h
  rwa [Int.cast_one, one_mul] at hone

theorem roundTo_neg (e : ℤ) (r : ℝ) : roundTo e (-r) = -roundTo e r := by
  rw [roundTo_eq, neg_div, roundEven_neg, Int.cast_neg, neg_mul, roundTo_eq]

namespace BinaryFormat

variable (f : BinaryFormat)

/-- Whether a number has a significand and an exponent of the format, where its exponent may be too
large. -/
inductive IsValue (r : ℝ) : Prop
  | intro (significand exponent : ℤ) (lt : |significand| < 2 ^ f.precision)
      (le : f.leastExponent ≤ exponent) (eq : r = significand * 2 ^ exponent)

/-- The exponent of the last bit of a significand for numbers about as large as a number. -/
noncomputable def spacing (r : ℝ) : ℤ :=
  max (Int.log 2 |r| + 1 - f.precision) f.leastExponent

/-- The nearest number of the format, as if it had no largest number. -/
noncomputable def round (r : ℝ) : ℝ :=
  roundTo (f.spacing r) r

noncomputable def limit : ℝ :=
  (2 : ℕ) ^ 2 ^ (f.exponentBits - 1)

noncomputable def clamp (r : ℝ) : EReal :=
  if f.limit ≤ r then ⊤ else if r ≤ -f.limit then ⊥ else r

noncomputable def rounded (r : ℝ) : EReal :=
  f.clamp (f.round r)

variable {f}

theorem limit_eq : f.limit = 2 ^ 2 ^ (f.exponentBits - 1) := by
  rw [limit, Nat.cast_ofNat]

section

variable {r s : ℝ}

theorem IsValue.neg (h : f.IsValue r) : f.IsValue (-r) := by
  obtain ⟨m, e, hm, he, rfl⟩ := h
  refine ⟨-m, e, ?_, he, ?_⟩
  · rwa [abs_neg]
  · rw [Int.cast_neg, neg_mul]

theorem IsValue.abs (h : f.IsValue r) : f.IsValue |r| := by
  rcases abs_choice r with he | he
  · rwa [he]
  · rw [he]
    exact h.neg

theorem IsValue.mul_two_pow (h : f.IsValue r) (k : ℕ) : f.IsValue (r * 2 ^ k) := by
  obtain ⟨m, e, hm, he, rfl⟩ := h
  refine ⟨m, e + k, hm, by omega, ?_⟩
  rw [zpow_add₀ two_ne_zero, zpow_natCast, mul_assoc]

theorem isValue_zero : f.IsValue 0 :=
  ⟨0, f.leastExponent, by rw [abs_zero]; positivity, le_rfl, by rw [Int.cast_zero, zero_mul]⟩

theorem isValue_two_zpow [NeZero f.precision] {k : ℤ} (h : f.leastExponent ≤ k) :
    f.IsValue (2 ^ k) := by
  refine ⟨1, k, ?_, h, ?_⟩
  · rw [abs_one]
    exact one_lt_pow₀ one_lt_two (NeZero.ne f.precision)
  · rw [Int.cast_one, one_mul]

theorem leastExponent_le_spacing : f.leastExponent ≤ f.spacing r :=
  le_max_right _ _

theorem spacing_neg (r : ℝ) : f.spacing (-r) = f.spacing r := by
  rw [spacing, abs_neg, spacing]

theorem spacing_le_of_abs_lt {e : ℤ} (he : f.leastExponent ≤ e) (hr : r ≠ 0)
    (h : |r| < 2 ^ (f.precision + e)) : f.spacing r ≤ e := by
  have hlog : Int.log 2 |r| < f.precision + e :=
    (Int.lt_zpow_iff_log_lt one_lt_two (abs_pos.2 hr)).1 (by exact_mod_cast h)
  rw [spacing, max_le_iff]
  exact ⟨by omega, he⟩

theorem spacing_mono (hr : 0 < r) (h : r ≤ s) : f.spacing r ≤ f.spacing s := by
  have hlog := Int.log_mono_right (b := 2) hr h
  rw [spacing, spacing, abs_of_pos hr, abs_of_pos (hr.trans_le h)]
  exact max_le_max_right _ (by omega)

/-- Between numbers with different spacings there is a power of two that has both of them. -/
theorem exists_two_zpow_between [NeZero f.precision] (hr : 0 < r) (hs : 0 < s)
    (h : f.spacing r < f.spacing s) :
    ∃ k : ℤ, f.spacing r ≤ k ∧ f.spacing s ≤ k ∧ r ≤ 2 ^ k ∧ 2 ^ k ≤ s := by
  have hprecision := NeZero.pos f.precision
  rw [spacing, spacing, abs_of_pos hr, abs_of_pos hs] at h ⊢
  have hlog : Int.log 2 r + 1 ≤ Int.log 2 s := by omega
  refine ⟨Int.log 2 s, by omega, by omega, ?_, ?_⟩
  · calc r ≤ 2 ^ (Int.log 2 r + 1) := by exact_mod_cast (Int.lt_zpow_succ_log_self one_lt_two r).le
      _ ≤ 2 ^ Int.log 2 s := zpow_le_zpow_right₀ one_le_two hlog
  · exact_mod_cast Int.zpow_log_le_self one_lt_two hs

theorem round_zero : f.round 0 = 0 :=
  roundTo_zero _

theorem IsValue.round_eq (h : f.IsValue r) : f.round r = r := by
  obtain ⟨m, e, hm, he, rfl⟩ := h
  by_cases hzero : (m : ℝ) * 2 ^ e = 0
  · rw [hzero, round_zero]
  · refine roundTo_of_multiple (spacing_le_of_abs_lt he hzero ?_)
    have hcast : |(m : ℝ)| < 2 ^ f.precision := by exact_mod_cast hm
    have hpow : (0 : ℝ) < 2 ^ e := by positivity
    rw [abs_mul, abs_of_pos hpow, zpow_add₀ two_ne_zero, zpow_natCast]
    exact mul_lt_mul_of_pos_right hcast hpow

theorem round_neg (r : ℝ) : f.round (-r) = -f.round r := by
  rw [round, spacing_neg, roundTo_neg, round]

theorem round_nonneg (h : 0 ≤ r) : 0 ≤ f.round r := by
  have hround := roundTo_mono (f.spacing r) h
  rwa [roundTo_zero] at hround

theorem round_mono_of_pos [NeZero f.precision] (hr : 0 < r) (h : r ≤ s) :
    f.round r ≤ f.round s := by
  rcases (spacing_mono (f := f) hr h).eq_or_lt with he | hlt
  · rw [round, round, he]
    exact roundTo_mono _ h
  · obtain ⟨k, hkr, hks, hrk, hsk⟩ := exists_two_zpow_between hr (hr.trans_le h) hlt
    calc f.round r ≤ roundTo (f.spacing r) (2 ^ k) := roundTo_mono _ hrk
      _ = 2 ^ k := roundTo_two_zpow hkr
      _ = roundTo (f.spacing s) (2 ^ k) := (roundTo_two_zpow hks).symm
      _ ≤ f.round s := roundTo_mono _ hsk

end

theorem round_mono [NeZero f.precision] : Monotone f.round := by
  intro r s h
  rcases lt_or_ge 0 r with hr | hr
  · exact round_mono_of_pos hr h
  · rcases lt_or_ge s 0 with hs | hs
    · rw [← neg_le_neg_iff, ← round_neg, ← round_neg]
      exact round_mono_of_pos (neg_pos.2 hs) (neg_le_neg h)
    · have hneg := round_nonneg (f := f) (neg_nonneg.2 hr)
      rw [round_neg, neg_nonneg] at hneg
      exact hneg.trans (round_nonneg hs)

/-- No number of the format lies between zero and the smallest power of two. -/
theorem IsValue.two_zpow_le {r : ℝ} (h : f.IsValue r) (hr : 0 < r) : 2 ^ f.leastExponent ≤ r := by
  obtain ⟨m, e, -, he, rfl⟩ := h
  have hpow : (0 : ℝ) < 2 ^ e := by positivity
  have hpos : 0 < m := by exact_mod_cast pos_of_mul_pos_left hr hpow.le
  have hone : (1 : ℝ) ≤ m := by exact_mod_cast hpos
  exact (zpow_le_zpow_right₀ one_le_two he).trans (le_mul_of_one_le_left hpow.le hone)

/-- Rounding takes away less than half of a number, unless it is too small for the format. -/
theorem half_le_round [NeZero f.precision] {r : ℝ} (h : 2 ^ f.leastExponent ≤ r) :
    r / 2 ≤ f.round r := by
  have hr : 0 < r := (zpow_pos two_pos f.leastExponent).trans_le h
  have hlog : (2 : ℝ) ^ Int.log 2 r ≤ r := by exact_mod_cast Int.zpow_log_le_self one_lt_two hr
  have hlog' : r < 2 ^ (Int.log 2 r + 1) := by exact_mod_cast Int.lt_zpow_succ_log_self one_lt_two r
  have hle : f.leastExponent ≤ Int.log 2 r :=
    (Int.zpow_le_iff_le_log one_lt_two hr).1 (by exact_mod_cast h)
  have hround := round_mono (f := f) hlog
  rw [(isValue_two_zpow hle).round_eq] at hround
  rw [zpow_add_one₀ two_ne_zero] at hlog'
  linarith

theorem round_le_max [NeZero f.precision] (r : ℝ) :
    f.round r ≤ max (2 * r) (2 ^ f.leastExponent) := by
  rcases le_total r (2 ^ f.leastExponent) with hsmall | hlarge
  · have hround := round_mono (f := f) hsmall
    rw [(isValue_two_zpow le_rfl).round_eq] at hround
    exact hround.trans (le_max_right _ _)
  · have hr : 0 < r := (zpow_pos two_pos f.leastExponent).trans_le hlarge
    have hlog : (2 : ℝ) ^ Int.log 2 r ≤ r := by exact_mod_cast Int.zpow_log_le_self one_lt_two hr
    have hlog' : r ≤ 2 ^ (Int.log 2 r + 1) := by
      exact_mod_cast (Int.lt_zpow_succ_log_self one_lt_two r).le
    have hle : f.leastExponent ≤ Int.log 2 r :=
      (Int.zpow_le_iff_le_log one_lt_two hr).1 (by exact_mod_cast hlarge)
    have hround := round_mono (f := f) hlog'
    rw [(isValue_two_zpow (hle.trans (Int.le_add_one le_rfl))).round_eq,
      zpow_add_one₀ two_ne_zero] at hround
    exact (hround.trans (by linarith)).trans (le_max_left _ _)

theorem abs_round (r : ℝ) : |f.round r| = f.round |r| := by
  rcases le_total 0 r with h | h
  · rw [abs_of_nonneg h, abs_of_nonneg (round_nonneg h)]
  · rw [abs_of_nonpos h, round_neg, abs_of_nonpos]
    have hneg := round_nonneg (f := f) (neg_nonneg.2 h)
    rwa [round_neg, neg_nonneg] at hneg

theorem limit_pos : 0 < f.limit := by
  rw [limit_eq]
  positivity

theorem clamp_of_abs_lt {r : ℝ} (h : |r| < f.limit) : f.clamp r = r := by
  obtain ⟨hlow, hhigh⟩ := abs_lt.1 h
  rw [clamp, if_neg hhigh.not_ge, if_neg hlow.not_ge]

theorem eq_of_clamp_eq {r s : ℝ} (h : f.clamp r = s) : r = s := by
  rw [clamp] at h
  split at h
  · exact absurd h.symm (EReal.coe_ne_top s)
  · split at h
    · exact absurd h.symm (EReal.coe_ne_bot s)
    · exact EReal.coe_eq_coe_iff.1 h

theorem clamp_mono : Monotone f.clamp := by
  intro r s h
  have hlimit := f.limit_pos
  rw [clamp, clamp]
  split
  · next hr => rw [if_pos (hr.trans h)]
  · split
    · exact bot_le
    · next hr =>
      split
      · exact le_top
      · rw [if_neg fun hs => hr (h.trans hs)]
        exact_mod_cast h

theorem clamp_neg (r : ℝ) : f.clamp (-r) = -f.clamp r := by
  have hlimit := f.limit_pos
  rw [clamp, clamp]
  by_cases hhigh : f.limit ≤ r
  · rw [if_neg (by linarith), if_pos (by linarith), if_pos hhigh, EReal.neg_top]
  · by_cases hlow : r ≤ -f.limit
    · rw [if_pos (by linarith), if_neg hhigh, if_pos hlow, EReal.neg_bot]
    · rw [if_neg (by linarith), if_neg (by linarith), if_neg hhigh, if_neg hlow, EReal.coe_neg]

theorem rounded_mono [NeZero f.precision] : Monotone f.rounded :=
  clamp_mono.comp round_mono

theorem rounded_neg (r : ℝ) : f.rounded (-r) = -f.rounded r := by
  rw [rounded, round_neg, clamp_neg, rounded]

theorem IsValue.rounded_eq {r : ℝ} (h : f.IsValue r) (hlimit : |r| < f.limit) :
    f.rounded r = r := by
  rw [rounded, h.round_eq, clamp_of_abs_lt hlimit]

theorem rounded_zero : f.rounded 0 = (0 : ℝ) :=
  isValue_zero.rounded_eq (by rw [abs_zero]; exact limit_pos)

end BinaryFormat

end ContextDiagram.Number
