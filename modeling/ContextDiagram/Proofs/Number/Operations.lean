import ContextDiagram.Proofs.Number.Packing

namespace ContextDiagram.Number

open Float.Model UnpackedFloat BinaryFormat

variable {F : Format}

noncomputable def readingOf (b : BitVec F.numBits) : Option EReal :=
  ((formatOf F).decode b.toNat).reading

/-- Whether an unpacked number is the one of its format that stands for a number. -/
inductive IsUnpacked (F : Format) : UnpackedFloat → ℝ → Prop
  | zero (sign : Sign) : IsUnpacked F (.zero sign) 0
  | finite (sign : Sign) {m : ℕ} {e : ℤ} (hm : 0 < m) (h : (formatOf F).IsCanonical m e)
      (hlimit : (m : ℝ) * 2 ^ e < (formatOf F).limit) :
      IsUnpacked F (.finite sign m e hm) (signed (isNegative sign) (m * 2 ^ e))

inductive IsExtended (F : Format) : UnpackedFloat → EReal → Prop
  | real {u : UnpackedFloat} {x : ℝ} (h : IsUnpacked F u x) : IsExtended F u x
  | infinity (sign : Sign) : IsExtended F (.infinity sign) (if isNegative sign then ⊥ else ⊤)

section

variable {u v : UnpackedFloat} {x y : ℝ}

theorem IsExtended.isUnpacked (h : IsExtended F u (x : EReal)) : IsUnpacked F u x := by
  generalize ha : (x : EReal) = a at h
  cases h with
  | real h =>
    rw [EReal.coe_eq_coe_iff.1 ha]
    exact h
  | infinity sign =>
    cases sign with
    | negative => exact absurd ha (EReal.coe_ne_bot x)
    | positive => exact absurd ha (EReal.coe_ne_top x)

theorem isExtended_unpack {b : BitVec F.numBits} {a : EReal} (h : readingOf b = some a) :
    IsExtended F (UnpackedFloat.unpack F b) a := by
  have hdecode := decode_toNat b
  rw [readingOf, hdecode] at h
  cases hu : UnpackedFloat.unpack F b with
  | notANumber =>
    rw [hu] at h
    cases h
  | infinity sign =>
    rw [hu] at h
    cases h
    exact .infinity sign
  | zero sign =>
    rw [hu, datumOf, Datum.reading_finite, Nat.cast_zero, zero_mul, signed_zero] at h
    cases h
    exact .real (.zero sign)
  | finite sign m e hm =>
    rw [hu] at h hdecode
    obtain ⟨hcanonical, hlt⟩ := isCanonical_of_decode hdecode
    cases h
    exact .real (.finite sign hm hcanonical ((pattern_lt_iff hcanonical).1 hlt))

theorem isUnpacked_unpack {b : BitVec F.numBits} (h : readingOf b = some (x : EReal)) :
    IsUnpacked F (UnpackedFloat.unpack F b) x :=
  (isExtended_unpack h).isUnpacked

theorem IsUnpacked.abs_lt (h : IsUnpacked F u x) : |x| < (formatOf F).limit := by
  cases h with
  | zero sign =>
    rw [abs_zero]
    exact limit_pos
  | finite sign hm h hlimit => rwa [abs_signed, abs_of_nonneg (by positivity)]

theorem IsUnpacked.isValue (h : IsUnpacked F u x) : (formatOf F).IsValue x := by
  cases h with
  | zero sign => exact isValue_zero
  | @finite sign m e hm h hlimit =>
    have hlt := h.lt
    rw [two_mul_fractionRange] at hlt
    have hvalue : (formatOf F).IsValue ((m : ℝ) * 2 ^ e) :=
      ⟨m, e, by rw [Nat.abs_cast]; exact_mod_cast hlt, h.le, by rw [Int.cast_natCast]⟩
    cases sign with
    | negative => exact hvalue.neg
    | positive => exact hvalue

theorem IsUnpacked.rounded_eq (h : IsUnpacked F u x) : (formatOf F).rounded x = x :=
  h.isValue.rounded_eq h.abs_lt

theorem IsUnpacked.neg (h : IsUnpacked F u x) : IsUnpacked F u.neg (-x) := by
  cases h with
  | zero sign =>
    rw [neg_zero]
    exact .zero (-sign)
  | @finite sign m e hm h hlimit =>
    have hsign : -signed (isNegative sign) (m * 2 ^ e) =
        signed (isNegative (-sign)) ((m : ℝ) * 2 ^ e) := by
      cases sign with
      | negative => exact neg_neg _
      | positive => rfl
    rw [hsign]
    exact .finite (-sign) hm h hlimit

theorem apply_mul_zpow (sign : Sign) (m : ℕ) (e : ℤ) :
    ((sign.apply m : ℤ) : ℝ) * 2 ^ e = signed (isNegative sign) (m * 2 ^ e) := by
  cases sign with
  | negative =>
    rw [Sign.apply, Int.cast_neg, neg_mul]
    rfl
  | positive => rfl

theorem unpackedSub_eq (u v : UnpackedFloat) :
    UnpackedFloat.sub F u v = UnpackedFloat.add F u v.neg := by
  cases u with
  | finite s m e hm =>
    cases v with
    | finite t n d hn =>
      have hsign : s.apply ((decreaseExponent m e (min e d)).1 : ℤ) -
          t.apply ((decreaseExponent n d (min e d)).1 : ℤ) =
          s.apply ((decreaseExponent m e (min e d)).1 : ℤ) +
            (-t).apply ((decreaseExponent n d (min e d)).1 : ℤ) := by
        cases t with
        | negative => exact sub_neg_eq_add _ _
        | positive => exact Int.sub_eq_add_neg
      exact congrArg (UnpackedFloat.normalize F · (min e d) .positive) hsign
    | infinity t => rfl
    | notANumber => rfl
    | zero t => rfl
  | infinity s => cases v <;> rfl
  | notANumber => cases v <;> rfl
  | zero s => cases v <;> rfl

/-- A product has enough bits: one of its factors is normal, or both have the least exponent. -/
theorem add_le_spacing {m n : ℕ} {e d : ℤ} (hm : 0 < m) (hn : 0 < n)
    (h : (formatOf F).IsCanonical m e) (h' : (formatOf F).IsCanonical n d) :
    e + d ≤ (formatOf F).spacing ((m * n : ℕ) * 2 ^ (e + d)) := by
  rcases h.isNormal_or with hnormal | he
  · exact le_spacing_of_fractionRange_le (hnormal.trans (Nat.le_mul_of_pos_right m hn))
  · rcases h'.isNormal_or with hnormal | hd
    · exact le_spacing_of_fractionRange_le (hnormal.trans (Nat.le_mul_of_pos_left n hm))
    · have hleast := leastExponent_eq_bias (F := F)
      have hm := F.hm
      have hspacing := (formatOf F).leastExponent_le_spacing (r := (m * n : ℕ) * 2 ^ (e + d))
      omega

theorem represents_ofFraction (m : ℕ) {n : ℕ} (hn : 0 < n) :
    Represents (.ofMantissaAndAccuracy (m / n) (accuracyOfFraction (m % n) n)) (m / n) := by
  have hn' : (0 : ℝ) < n := by exact_mod_cast hn
  have hsplit : (m : ℝ) / n = (m / n : ℕ) + ((m % n : ℕ) : ℝ) / n := by
    rw [div_eq_iff hn'.ne', add_mul, div_mul_cancel₀ _ hn'.ne', mul_comm]
    exact_mod_cast (Nat.div_add_mod m n).symm
  have hmod := Nat.mod_lt m hn
  rw [hsplit, accuracyOfFraction]
  generalize m / n = quotient
  generalize m % n = rest at hmod
  have hhigh : (rest : ℝ) / n < 1 := by
    rw [div_lt_one hn']
    exact_mod_cast hmod
  split
  · next hzero =>
    rw [hzero, Nat.cast_zero, zero_div, add_zero]
    exact represents_exact quotient
  · next hpos =>
    have hlow : 0 < (rest : ℝ) / n := div_pos (by exact_mod_cast Nat.pos_of_ne_zero hpos) hn'
    rcases lt_trichotomy (2 * rest) n with hlt | heq | hgt
    · rw [Nat.compare_eq_lt.2 hlt]
      refine represents_below quotient hlow ?_
      rw [div_lt_div_iff₀ hn' two_pos, one_mul, mul_comm]
      exact_mod_cast hlt
    · rw [Nat.compare_eq_eq.2 heq]
      refine represents_middle quotient ?_
      rw [div_eq_div_iff hn'.ne' two_ne_zero, one_mul, mul_comm]
      exact_mod_cast heq
    · rw [Nat.compare_eq_gt.2 hgt]
      refine represents_above quotient ?_ hhigh
      rw [div_lt_div_iff₀ two_pos hn', one_mul, mul_comm]
      exact_mod_cast hgt

theorem represents_sqrt (m : ℕ) : Represents (.ofMantissaAndAccuracy m.sqrt
    (if m - m.sqrt * m.sqrt = 0 then .exact
      else .inexact (if m - m.sqrt * m.sqrt ≤ m.sqrt then .lt else .gt))) √m := by
  have hle := Nat.sqrt_le m
  have hlt : m < (m.sqrt + 1) * (m.sqrt + 1) := Nat.lt_succ_sqrt m
  generalize m.sqrt = root at hle hlt ⊢
  have hsplit : √(m : ℝ) = root + (√m - root) := (add_sub_cancel _ _).symm
  have hnext : √(m : ℝ) < root + 1 := by
    rw [Real.sqrt_lt' (by positivity), pow_two]
    exact_mod_cast hlt
  split
  · next hzero =>
    have hroot : m = root ^ 2 := by
      rw [pow_two]
      omega
    rw [hroot, Nat.cast_pow, Real.sqrt_sq (Nat.cast_nonneg root)]
    exact represents_exact root
  · next hpos =>
    split
    · next hbelow =>
      rw [hsplit]
      refine represents_below root (sub_pos.2 ?_) (sub_lt_iff_lt_add'.2 ?_)
      · rw [Real.lt_sqrt (Nat.cast_nonneg root), pow_two]
        have hroot : root * root < m := by omega
        exact_mod_cast hroot
      · rw [Real.sqrt_lt' (by positivity)]
        have hm : (m : ℝ) ≤ root * root + root := by
          have hm : m ≤ root * root + root := by omega
          exact_mod_cast hm
        linarith
    · next habove =>
      rw [hsplit]
      refine represents_above root (lt_sub_iff_add_lt'.2 ?_) (sub_lt_iff_lt_add'.2 hnext)
      rw [Real.lt_sqrt (by positivity)]
      have hm : (root * root + root : ℝ) + 1 ≤ m := by
        have hm : root * root + root + 1 ≤ m := by omega
        exact_mod_cast hm
      linarith

theorem two_zpow_totalExponent {m : ℕ} (hm : 0 < m) (e : ℤ) :
    (2 : ℝ) ^ (totalExponent m e - 1) ≤ m * 2 ^ e ∧ (m : ℝ) * 2 ^ e < 2 ^ totalExponent m e := by
  have hpow : (0 : ℝ) < 2 ^ e := by positivity
  have hlow : (2 : ℝ) ^ m.log2 ≤ m := by exact_mod_cast Nat.log2_self_le hm.ne'
  have hhigh : (m : ℝ) < 2 ^ (m.log2 + 1) := by exact_mod_cast Nat.lt_log2_self
  have hexponent : totalExponent m e - 1 = m.log2 + e := by
    rw [totalExponent]
    ring
  have hexponent' : totalExponent m e = (m.log2 + 1 : ℕ) + e := by
    rw [totalExponent, Nat.cast_succ]
  rw [hexponent, hexponent', zpow_add₀ two_ne_zero, zpow_add₀ two_ne_zero, zpow_natCast,
    zpow_natCast]
  exact ⟨mul_le_mul_of_nonneg_right hlow hpow.le, mul_lt_mul_of_pos_right hhigh hpow⟩

theorem targetExponent_le_spacing {r : ℝ} {k : ℤ} (hr : 0 < r) (h : (2 : ℝ) ^ (k - 1) ≤ r) :
    F.targetExponent k ≤ (formatOf F).spacing r := by
  have hspacing := le_spacing_of_two_zpow_le (f := formatOf F) hr h
  rwa [sub_add_cancel] at hspacing

theorem divCore_spec {m n : ℕ} (hm : 0 < m) (hn : 0 < n) (e d : ℤ) :
    Represents (.ofMantissaAndAccuracy (divCore F m e n d).1 (divCore F m e n d).2.2)
        (m * 2 ^ e / (n * 2 ^ d) / 2 ^ (divCore F m e n d).2.1) ∧
      (divCore F m e n d).2.1 ≤ (formatOf F).spacing (m * 2 ^ e / (n * 2 ^ d)) := by
  have hm' : (0 : ℝ) < m := by exact_mod_cast hm
  have hn' : (0 : ℝ) < n := by exact_mod_cast hn
  have hpos : (0 : ℝ) < m * 2 ^ e / (n * 2 ^ d) := by positivity
  rw [divCore]
  dsimp only
  constructor
  · have hle := min_le_left (e - d) (F.targetExponent (totalExponent m e - totalExponent n d))
    generalize min (e - d) (F.targetExponent (totalExponent m e - totalExponent n d)) = t at hle ⊢
    have hquotient : (m : ℝ) * 2 ^ e / (n * 2 ^ d) / 2 ^ t =
        ((m <<< (e - d - t).toNat : ℕ) : ℝ) / n := by
      rw [Nat.shiftLeft_eq, Nat.cast_mul, Nat.cast_pow, Nat.cast_ofNat, ← zpow_natCast,
        Int.toNat_of_nonneg (sub_nonneg.2 hle), zpow_sub₀ two_ne_zero, zpow_sub₀ two_ne_zero]
      field_simp
    rw [hquotient]
    exact represents_ofFraction _ hn
  · refine (min_le_right _ _).trans (targetExponent_le_spacing hpos ?_)
    obtain ⟨hlow, -⟩ := two_zpow_totalExponent hm e
    obtain ⟨-, hhigh⟩ := two_zpow_totalExponent hn d
    have hexponent : totalExponent m e - totalExponent n d - 1 =
        totalExponent m e - 1 - totalExponent n d := by
      ring
    rw [hexponent, zpow_sub₀ two_ne_zero]
    exact div_le_div₀ (by positivity) hlow (by positivity) hhigh.le

theorem sqrtCore_spec {m : ℕ} (hm : 0 < m) (e : ℤ) :
    Represents (.ofMantissaAndAccuracy (sqrtCore F m e).1 (sqrtCore F m e).2.2)
        (√(m * 2 ^ e) / 2 ^ (sqrtCore F m e).2.1) ∧
      (sqrtCore F m e).2.1 ≤ (formatOf F).spacing (√(m * 2 ^ e)) := by
  have hm' : (0 : ℝ) < m := by exact_mod_cast hm
  rw [sqrtCore]
  dsimp only
  constructor
  · have hle := min_le_left (e.ediv 2) (F.targetExponent ((totalExponent m e + 1).ediv 2))
    have hdiv : 2 * e.ediv 2 ≤ e := Int.mul_ediv_self_le two_ne_zero
    generalize min (e.ediv 2) (F.targetExponent ((totalExponent m e + 1).ediv 2)) = t at hle ⊢
    have hroot : √((m : ℝ) * 2 ^ e) / 2 ^ t = √((m <<< (e - 2 * t).toNat : ℕ) : ℝ) := by
      have hsq : (2 : ℝ) ^ t = √(2 ^ (2 * t)) := by
        rw [mul_comm, zpow_mul, zpow_ofNat, Real.sqrt_sq (by positivity)]
      rw [hsq, ← Real.sqrt_div' _ (by positivity), Nat.shiftLeft_eq, Nat.cast_mul, Nat.cast_pow,
        Nat.cast_ofNat, ← zpow_natCast, Int.toNat_of_nonneg (by omega), zpow_sub₀ two_ne_zero,
        mul_div_assoc]
    rw [hroot]
    exact represents_sqrt _
  · have hpos : (0 : ℝ) < m * 2 ^ e := by positivity
    refine (min_le_right _ _).trans (targetExponent_le_spacing (Real.sqrt_pos.2 hpos) ?_)
    obtain ⟨hlow, -⟩ := two_zpow_totalExponent hm e
    apply Real.le_sqrt_of_sq_le
    rw [← zpow_natCast, ← zpow_mul]
    refine (zpow_le_zpow_right₀ one_le_two ?_).trans hlow
    have hdiv : 2 * (totalExponent m e + 1).ediv 2 ≤ totalExponent m e + 1 :=
      Int.mul_ediv_self_le two_ne_zero
    push_cast
    omega

end

section

variable (hbits : 1 < F.exponentBits) {u v : UnpackedFloat} {x y : ℝ}

include hbits

theorem reading_pack_compose (sign : Sign) {m : ℕ} {e : ℤ} (h : (formatOf F).IsCanonical m e) :
    readingOf (UnpackedFloat.pack F (compose sign m e)) =
      some ((formatOf F).clamp (signed (isNegative sign) (m * 2 ^ e))) := by
  rw [readingOf, toNat_pack_compose hbits sign h, reading_decode_pattern _ h]

theorem reading_pack_zero (sign : Sign) :
    readingOf (UnpackedFloat.pack F (.zero sign)) = some 0 := by
  have h := reading_pack_compose hbits sign (isCanonical_zero (f := formatOf F))
  rw [Nat.cast_zero, zero_mul, signed_zero,
    clamp_of_abs_lt (by rw [abs_zero]; exact limit_pos)] at h
  exact h

theorem IsUnpacked.reading_pack (h : IsUnpacked F u x) :
    readingOf (UnpackedFloat.pack F u) = some (x : EReal) := by
  have habs := h.abs_lt
  cases h with
  | zero sign => exact reading_pack_zero hbits sign
  | finite sign hm h hlimit =>
    rw [← compose_of_pos sign _ hm, reading_pack_compose hbits sign h, clamp_of_abs_lt habs]

theorem reading_pack_roundWithAccuracy (sign : Sign) {m : ℕ} {e : ℤ} {accuracy : Accuracy}
    (hx : 0 < x) (h : Represents (.ofMantissaAndAccuracy m accuracy) (x / 2 ^ e))
    (he : e ≤ (formatOf F).spacing x) :
    readingOf (UnpackedFloat.pack F (roundWithAccuracy F sign m e accuracy)) =
      some ((formatOf F).rounded (signed (isNegative sign) x)) := by
  obtain ⟨m', e', hcanonical, hvalue, hresult⟩ := roundWithAccuracy_eq sign hx h he
  rw [hresult, reading_pack_compose hbits sign hcanonical, hvalue, rounded, round_signed]

/-- An exponent that is too large is decreased before rounding. -/
theorem reading_pack_round (sign : Sign) {m : ℕ} (hm : 0 < m) (e : ℤ) :
    readingOf (UnpackedFloat.pack F (UnpackedFloat.round F sign m e)) =
      some ((formatOf F).rounded (signed (isNegative sign) (m * 2 ^ e))) := by
  have hpow : (0 : ℝ) < 2 ^ e := by positivity
  have hx : 0 < (m : ℝ) * 2 ^ e := mul_pos (by exact_mod_cast hm) hpow
  have htarget := targetExponent_of_ne_zero (F := F) hm.ne' hx le_rfl
    (mul_lt_mul_of_pos_right (lt_add_one _) hpow)
  obtain ⟨hvalue, hexponent⟩ :=
    decreaseExponent_spec m e (F.targetExponent (totalExponent m e))
  have hquotient := (eq_div_iff (zpow_ne_zero _ two_ne_zero)).2 hvalue
  have hrepresents := represents_exact (decreaseExponent m e
    (F.targetExponent (totalExponent m e))).1
  rw [hquotient] at hrepresents
  have hle := hexponent.trans_le ((min_le_right _ _).trans_eq htarget)
  exact reading_pack_roundWithAccuracy hbits sign hx hrepresents hle

theorem reading_pack_normalize (m : ℤ) (e : ℤ) (sign : Sign) :
    readingOf (UnpackedFloat.pack F (normalize F m e sign)) =
      some ((formatOf F).rounded (m * 2 ^ e)) := by
  rw [UnpackedFloat.normalize]
  rcases lt_trichotomy m 0 with hneg | rfl | hpos
  · have htoNat : (((-m).toNat : ℕ) : ℝ) = -m := by
      exact_mod_cast Int.toNat_of_nonneg (neg_nonneg.2 hneg.le)
    rw [Int.compare_eq_lt.2 hneg]
    dsimp only
    rw [reading_pack_round hbits .negative (by omega), htoNat, neg_mul]
    exact congrArg (fun r => some ((formatOf F).rounded r)) (neg_neg _)
  · rw [Int.cast_zero, zero_mul, rounded_zero]
    exact reading_pack_zero hbits sign
  · have htoNat : ((m.toNat : ℕ) : ℝ) = m := by exact_mod_cast Int.toNat_of_nonneg hpos.le
    rw [Int.compare_eq_gt.2 hpos]
    dsimp only
    rw [reading_pack_round hbits .positive (by omega), htoNat]
    rfl

theorem reading_pack_add (hu : IsUnpacked F u x) (hv : IsUnpacked F v y) :
    readingOf (UnpackedFloat.pack F (UnpackedFloat.add F u v)) =
      some ((formatOf F).rounded (x + y)) := by
  have hy := hv.rounded_eq
  have hx := hu.rounded_eq
  cases hu with
  | zero s =>
    rw [zero_add, hy]
    cases hv with
    | zero t =>
      rw [UnpackedFloat.add]
      split
      · exact reading_pack_zero hbits s
      · exact reading_pack_zero hbits .positive
    | finite t hn hd hlimit => exact (IsUnpacked.finite t hn hd hlimit).reading_pack hbits
  | @finite s m e hm h hlimit =>
    cases hv with
    | zero t =>
      rw [add_zero, hx]
      exact (IsUnpacked.finite s hm h hlimit).reading_pack hbits
    | @finite t n d hn h' hlimit' =>
      obtain ⟨hm', he⟩ := decreaseExponent_spec m e (min e d)
      obtain ⟨hn', hd⟩ := decreaseExponent_spec n d (min e d)
      rw [min_eq_right (min_le_left e d)] at he
      rw [min_eq_right (min_le_right e d)] at hd
      rw [he] at hm'
      rw [hd] at hn'
      rw [UnpackedFloat.add]
      dsimp only
      rw [reading_pack_normalize hbits, Int.cast_add, add_mul, apply_mul_zpow,
        apply_mul_zpow, hm', hn']

theorem reading_pack_sub (hu : IsUnpacked F u x) (hv : IsUnpacked F v y) :
    readingOf (UnpackedFloat.pack F (UnpackedFloat.sub F u v)) =
      some ((formatOf F).rounded (x - y)) := by
  rw [unpackedSub_eq, sub_eq_add_neg]
  exact reading_pack_add hbits hu hv.neg

theorem reading_pack_mul (hu : IsUnpacked F u x) (hv : IsUnpacked F v y) :
    readingOf (UnpackedFloat.pack F (UnpackedFloat.mul F u v)) =
      some ((formatOf F).rounded (x * y)) := by
  cases hu with
  | zero s =>
    rw [zero_mul, rounded_zero]
    cases hv with
    | zero t => exact reading_pack_zero hbits (s * t)
    | finite t hn h' hlimit' => exact reading_pack_zero hbits (s * t)
  | @finite s m e hm h hlimit =>
    cases hv with
    | zero t =>
      rw [mul_zero, rounded_zero]
      exact reading_pack_zero hbits (s * t)
    | @finite t n d hn h' hlimit' =>
      have hpow : (0 : ℝ) < 2 ^ (e + d) := by positivity
      have hx : 0 < ((m * n : ℕ) : ℝ) * 2 ^ (e + d) :=
        mul_pos (by exact_mod_cast Nat.mul_pos hm hn) hpow
      have hrepresents := represents_exact (m * n)
      rw [← mul_div_cancel_right₀ ((m * n : ℕ) : ℝ) hpow.ne'] at hrepresents
      have hproduct : signed (isNegative s) (m * 2 ^ e) * signed (isNegative t) (n * 2 ^ d) =
          signed (isNegative (s * t)) ((m * n : ℕ) * 2 ^ (e + d)) := by
        rw [signed_mul_signed, isNegative_mul, Nat.cast_mul, zpow_add₀ two_ne_zero]
        congr 1
        ring
      rw [hproduct]
      exact reading_pack_roundWithAccuracy hbits (s * t) hx hrepresents
        (add_le_spacing hm hn h h')

theorem reading_pack_div (hu : IsUnpacked F u x) (hv : IsUnpacked F v y) (hy : y ≠ 0) :
    readingOf (UnpackedFloat.pack F (UnpackedFloat.div F u v)) =
      some ((formatOf F).rounded (x / y)) := by
  cases hv with
  | zero t => exact absurd rfl hy
  | @finite t n d hn h' hlimit' =>
    cases hu with
    | zero s =>
      rw [zero_div, rounded_zero]
      exact reading_pack_zero hbits (s / t)
    | @finite s m e hm h hlimit =>
      obtain ⟨hrepresents, hle⟩ := divCore_spec (F := F) hm hn e d
      have hx : (0 : ℝ) < m * 2 ^ e / (n * 2 ^ d) := by
        have hm' : (0 : ℝ) < m := by exact_mod_cast hm
        have hn' : (0 : ℝ) < n := by exact_mod_cast hn
        positivity
      rw [signed_div_signed, ← isNegative_div]
      exact reading_pack_roundWithAccuracy hbits (s / t) hx hrepresents hle

theorem reading_pack_sqrt (hu : IsUnpacked F u x) (hx : 0 ≤ x) :
    readingOf (UnpackedFloat.pack F (UnpackedFloat.sqrt F u)) =
      some ((formatOf F).rounded (√x)) := by
  cases hu with
  | zero s =>
    rw [Real.sqrt_zero, rounded_zero]
    exact reading_pack_zero hbits s
  | @finite s m e hm h hlimit =>
    have hpos : 0 < (m : ℝ) * 2 ^ e := mul_pos (by exact_mod_cast hm) (by positivity)
    cases s with
    | negative => exact absurd hx (not_le.2 (neg_neg_of_pos hpos))
    | positive =>
      obtain ⟨hrepresents, hle⟩ := sqrtCore_spec (F := F) hm e
      exact reading_pack_roundWithAccuracy hbits .positive (Real.sqrt_pos.2 hpos) hrepresents hle

theorem reading_pack_ofNat (n : ℕ) :
    readingOf (UnpackedFloat.pack F (UnpackedFloat.ofNat F n)) =
      some ((formatOf F).rounded n) := by
  rw [UnpackedFloat.ofNat, UnpackedFloat.ofInt, reading_pack_normalize hbits, Int.cast_natCast,
    zpow_zero, mul_one]

end

end ContextDiagram.Number
