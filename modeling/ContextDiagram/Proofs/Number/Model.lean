import ContextDiagram.Proofs.Number.Patterns

namespace ContextDiagram.Number

open Float.Model UnpackedFloat BinaryFormat

abbrev formatOf (F : Format) : BinaryFormat where
  precision := F.mantissaBits
  exponentBits := F.exponentBits

variable {F : Format}

instance : NeZero (formatOf F).precision :=
  ⟨(Nat.add_comm 1 _).trans_ne (Nat.succ_ne_zero _)⟩

instance : NeZero (formatOf F).exponentBits :=
  ⟨F.he.ne'⟩

theorem leastExponent_formatOf : (formatOf F).leastExponent = F.minExponent :=
  rfl

theorem fractionRange_formatOf :
    (formatOf F).fractionRange = 2 ^ F.mantissaBitsWithoutImplicit :=
  congrArg (Nat.pow 2) (Nat.add_sub_cancel_left 1 _)

/-- Whether a significand is the whole part of a number, and two bits tell on which side of the
middle between it and the next one the number lies. -/
inductive Represents (m : ExtendedMantissa) (x : ℝ) : Prop
  | intro (part : ℝ) (nonneg : 0 ≤ part) (lt_one : part < 1) (eq : x = m.mantissa + part)
      (roundBit_iff : m.roundBit = true ↔ 1 / 2 ≤ part)
      (stickyBit_iff : m.stickyBit = true ↔ part ≠ 0 ∧ part ≠ 1 / 2)

theorem Represents.shiftRightOne {m : ExtendedMantissa} {x : ℝ} (h : Represents m x) :
    Represents m.shiftRightOne (x / 2) := by
  obtain ⟨part, hlow, hhigh, rfl, hround, hsticky⟩ := h
  have hsplit : (m.mantissa : ℝ) = 2 * (m.mantissa / 2 : ℕ) + (m.mantissa % 2 : ℕ) := by
    exact_mod_cast (Nat.div_add_mod m.mantissa 2).symm
  have hinexact : m.roundBit = true ∨ m.stickyBit = true ↔ part ≠ 0 := by
    rw [hround, hsticky]
    constructor
    · rintro (h | h)
      · exact (one_half_pos.trans_le h).ne'
      · exact h.1
    · intro h
      exact (eq_or_ne part (1 / 2)).imp (fun he => he.ge) fun hne => ⟨h, hne⟩
  refine ⟨((m.mantissa % 2 : ℕ) + part) / 2, by positivity, ?_, ?_, ?_, ?_⟩
  · have hbit : ((m.mantissa % 2 : ℕ) : ℝ) ≤ 1 := by
      exact_mod_cast Nat.le_of_lt_succ (Nat.mod_lt m.mantissa two_pos)
    linarith
  · rw [hsplit, ExtendedMantissa.shiftRightOne]
    ring
  · rw [ExtendedMantissa.shiftRightOne, bne_iff_ne]
    rcases Nat.mod_two_eq_zero_or_one m.mantissa with hbit | hbit
    · rw [hbit, Nat.cast_zero]
      exact iff_of_false (fun h => h rfl) (by linarith)
    · rw [hbit, Nat.cast_one]
      exact iff_of_true one_ne_zero (by linarith)
  · rw [ExtendedMantissa.shiftRightOne, Bool.or_eq_true, hinexact]
    rcases Nat.mod_two_eq_zero_or_one m.mantissa with hbit | hbit
    · rw [hbit, Nat.cast_zero, zero_add]
      constructor
      · intro h
        exact ⟨div_ne_zero h two_ne_zero, by linarith⟩
      · rintro ⟨h, -⟩ rfl
        exact h (zero_div 2)
    · rw [hbit, Nat.cast_one]
      constructor
      · intro h
        refine ⟨by positivity, ?_⟩
        intro he
        exact h (by linarith)
      · rintro ⟨-, h⟩ rfl
        exact h (by norm_num)

theorem Represents.shiftRight {m : ExtendedMantissa} {x : ℝ} (h : Represents m x) (n : ℕ) :
    Represents (m >>> n) (x / 2 ^ n) := by
  change Represents (n.repeat ExtendedMantissa.shiftRightOne m) (x / 2 ^ n)
  induction n with
  | zero => rwa [pow_zero, div_one]
  | succ n ih =>
    rw [pow_succ, ← div_div]
    exact ih.shiftRightOne

theorem Represents.roundedMantissa_eq {m : ExtendedMantissa} {x : ℝ} (h : Represents m x) :
    (m.roundedMantissa : ℤ) = roundEven x := by
  obtain ⟨part, hlow, hhigh, rfl, hround, hsticky⟩ := h
  obtain ⟨m, round, sticky⟩ := m
  apply IsNearest.eq_roundEven
  rw [← Int.cast_natCast]
  cases round with
  | false =>
    have hbelow : part < 1 / 2 := not_le.1 (mt hround.2 Bool.false_ne_true)
    cases sticky with
    | false => exact isNearest_below hlow (.inl hbelow)
    | true => exact isNearest_below hlow (.inl hbelow)
  | true =>
    have habove : 1 / 2 ≤ part := hround.1 rfl
    cases sticky with
    | false =>
      have htie : part = 1 / 2 := by
        by_contra hne
        exact Bool.false_ne_true (hsticky.2 ⟨(one_half_pos.trans_le habove).ne', hne⟩)
      change IsNearest ((m + m % 2 : ℕ) : ℤ) _
      rcases Nat.mod_two_eq_zero_or_one m with hbit | hbit
      · rw [hbit, Nat.add_zero]
        exact isNearest_below hlow (.inr ⟨htie, by rwa [Int.even_coe_nat, Nat.even_iff]⟩)
      · rw [hbit, Nat.cast_succ]
        refine isNearest_above hhigh.le (.inr ⟨htie, ?_⟩)
        rwa [Int.even_coe_nat, Nat.not_even_iff]
    | true =>
      change IsNearest ((m + 1 : ℕ) : ℤ) _
      rw [Nat.cast_succ]
      exact isNearest_above hhigh.le (.inl (habove.lt_of_ne' (hsticky.1 rfl).2))

theorem represents_exact (m : ℕ) : Represents (.ofMantissaAndAccuracy m .exact) m :=
  ⟨0, le_rfl, one_pos, (add_zero _).symm, iff_of_false Bool.false_ne_true (by norm_num),
    iff_of_false Bool.false_ne_true fun h => h.1 rfl⟩

section

variable (m : ℕ) {part : ℝ}

theorem represents_below (hlow : 0 < part) (hhigh : part < 1 / 2) :
    Represents (.ofMantissaAndAccuracy m (.inexact .lt)) (m + part) :=
  ⟨part, hlow.le, by linarith, rfl, iff_of_false Bool.false_ne_true hhigh.not_ge,
    iff_of_true rfl ⟨hlow.ne', hhigh.ne⟩⟩

theorem represents_middle (h : part = 1 / 2) :
    Represents (.ofMantissaAndAccuracy m (.inexact .eq)) (m + part) :=
  ⟨part, by linarith, by linarith, rfl, iff_of_true rfl h.ge,
    iff_of_false Bool.false_ne_true fun hne => hne.2 h⟩

theorem represents_above (hlow : 1 / 2 < part) (hhigh : part < 1) :
    Represents (.ofMantissaAndAccuracy m (.inexact .gt)) (m + part) :=
  ⟨part, by linarith, hhigh, rfl, iff_of_true rfl hlow.le,
    iff_of_true rfl ⟨(one_half_pos.trans hlow).ne', hlow.ne'⟩⟩

end

theorem Represents.bounds {m : ExtendedMantissa} {x : ℝ} (h : Represents m x) :
    (m.mantissa : ℝ) ≤ x ∧ x < m.mantissa + 1 := by
  obtain ⟨part, hlow, hhigh, rfl, -⟩ := h
  exact ⟨by linarith, by linarith⟩

def compose (sign : Sign) (m : ℕ) (e : ℤ) : UnpackedFloat :=
  if h : m = 0 then .zero sign else .finite sign m e (Nat.pos_of_ne_zero h)

theorem compose_of_pos (sign : Sign) {m : ℕ} (e : ℤ) (hm : 0 < m) :
    compose sign m e = .finite sign m e hm :=
  dif_neg hm.ne'

/-- The exponent of the last bit is found from the whole part of the significand alone. -/
theorem targetExponent_of_ne_zero {m : ℕ} {e : ℤ} {x : ℝ} (hm : m ≠ 0) (hx : 0 < x)
    (hlow : (m : ℝ) * 2 ^ e ≤ x) (hhigh : x < (m + 1) * 2 ^ e) :
    F.targetExponent (totalExponent m e) = (formatOf F).spacing x := by
  rw [Format.targetExponent, totalExponent, ← leastExponent_formatOf, spacing, abs_of_pos hx,
    log_eq_log2 hm hlow hhigh]
  congr 2
  ring

theorem targetExponent_eq {m : ℕ} {e : ℤ} {x : ℝ} (hx : 0 < x) (hlow : (m : ℝ) * 2 ^ e ≤ x)
    (hhigh : x < (m + 1) * 2 ^ e) (he : e ≤ (formatOf F).spacing x) :
    F.targetExponent (totalExponent m e) = (formatOf F).spacing x := by
  by_cases hm : m = 0
  · have hlog : Int.log 2 x < e := by
      apply (Int.lt_zpow_iff_log_lt one_lt_two hx).1
      rw [hm, Nat.cast_zero, zero_add, one_mul] at hhigh
      exact_mod_cast hhigh
    have hprecision : (formatOf F).precision = F.mantissaBits := rfl
    have hpos := NeZero.pos (formatOf F).precision
    have hzero : (Nat.log2 0 : ℤ) = 0 := rfl
    rw [Format.targetExponent, totalExponent, ← leastExponent_formatOf]
    rw [spacing, abs_of_pos hx] at he ⊢
    rw [hm, hzero]
    omega
  · exact targetExponent_of_ne_zero hm hx hlow hhigh

theorem decreaseExponent_spec (m : ℕ) (e target : ℤ) :
    ((decreaseExponent m e target).1 : ℝ) * 2 ^ (decreaseExponent m e target).2 = m * 2 ^ e ∧
      (decreaseExponent m e target).2 = min e target := by
  have hexponent : e - ((e - target).toNat : ℤ) = min e target := by omega
  constructor
  · rw [decreaseExponent, Nat.shiftLeft_eq, Nat.cast_mul, Nat.cast_pow, Nat.cast_ofNat, mul_assoc,
      ← zpow_natCast, ← zpow_add₀ two_ne_zero, add_sub_cancel]
  · exact hexponent

theorem targetExponent_le {m : ℕ} {e : ℤ} (hm : m < 2 * (formatOf F).fractionRange)
    (he : (formatOf F).leastExponent ≤ e) : F.targetExponent (totalExponent m e) ≤ e := by
  have hlog : m.log2 < F.mantissaBits := by
    by_cases hzero : m = 0
    · rw [hzero]
      exact NeZero.pos (formatOf F).precision
    · rw [Nat.log2_lt hzero]
      exact hm.trans_eq two_mul_fractionRange
  rw [Format.targetExponent, totalExponent, max_le_iff]
  exact ⟨by omega, he⟩

/-- Rounding may carry a significand to the next power of two, which loses no bit when it is shifted
back. -/
theorem shiftToTargetExponent_exact {m : ℕ} {e : ℤ} (hm : m ≤ 2 * (formatOf F).fractionRange)
    (he : (formatOf F).leastExponent ≤ e)
    (h : (formatOf F).fractionRange ≤ m ∨ e = (formatOf F).leastExponent) :
    (formatOf F).IsCanonical (shiftToTargetExponent F m e .exact).1.mantissa
        (shiftToTargetExponent F m e .exact).2 ∧
      ((shiftToTargetExponent F m e .exact).1.mantissa : ℝ) *
        2 ^ (shiftToTargetExponent F m e .exact).2 = m * 2 ^ e := by
  rcases hm.lt_or_eq with hlt | heq
  · have hshift : (F.targetExponent (totalExponent m e) - e).toNat = 0 := by
      have := targetExponent_le hlt he
      omega
    have hresult : shiftToTargetExponent F m e .exact =
        (ExtendedMantissa.ofMantissaAndAccuracy m .exact, e) := by
      rw [shiftToTargetExponent, shiftToExponent, hshift, Nat.cast_zero, add_zero]
      rfl
    rw [hresult]
    exact ⟨⟨hlt, he, h⟩, rfl⟩
  · have htarget : F.targetExponent (totalExponent m e) = e + 1 := by
      have hlog : m.log2 = F.mantissaBits := by
        rw [heq, two_mul_fractionRange, Nat.log2_two_pow]
      rw [Format.targetExponent, totalExponent, hlog, ← leastExponent_formatOf]
      omega
    have hresult : shiftToTargetExponent F m e .exact =
        ((ExtendedMantissa.ofMantissaAndAccuracy m .exact).shiftRightOne, e + 1) := by
      rw [shiftToTargetExponent, shiftToExponent, htarget, add_sub_cancel_left, Int.toNat_one,
        Nat.cast_one]
      rfl
    have hhalf : (ExtendedMantissa.ofMantissaAndAccuracy m .exact).shiftRightOne.mantissa =
        (formatOf F).fractionRange := by
      change m / 2 = _
      rw [heq, Nat.mul_div_cancel_left _ two_pos]
    have hrange := (formatOf F).fractionRange_pos
    rw [hresult, hhalf, heq, zpow_add₀ two_ne_zero, zpow_one]
    refine ⟨⟨by omega, by omega, .inl le_rfl⟩, ?_⟩
    push_cast
    ring

theorem roundWithAccuracy_eq (sign : Sign) {m : ℕ} {e : ℤ} {accuracy : Accuracy} {x : ℝ}
    (hx : 0 < x) (h : Represents (.ofMantissaAndAccuracy m accuracy) (x / 2 ^ e))
    (he : e ≤ (formatOf F).spacing x) :
    ∃ m' e', (formatOf F).IsCanonical m' e' ∧ (m' : ℝ) * 2 ^ e' = (formatOf F).round x ∧
      roundWithAccuracy F sign m e accuracy = compose sign m' e' := by
  have hpow : (0 : ℝ) < 2 ^ e := by positivity
  have hmantissa : (ExtendedMantissa.ofMantissaAndAccuracy m accuracy).mantissa = m := by
    rcases accuracy with _ | (_ | _ | _) <;> rfl
  obtain ⟨hlow, hhigh⟩ := h.bounds
  rw [hmantissa, le_div_iff₀ hpow] at hlow
  rw [hmantissa, div_lt_iff₀ hpow] at hhigh
  have htarget := targetExponent_eq hx hlow hhigh he
  have hshift := h.shiftRight ((formatOf F).spacing x - e).toNat
  have hexponent : e + ((formatOf F).spacing x - e).toNat = (formatOf F).spacing x := by
    omega
  rw [div_div, ← zpow_natCast, ← zpow_add₀ two_ne_zero, hexponent] at hshift
  have hfirst : shiftToTargetExponent F m e accuracy =
      (ExtendedMantissa.ofMantissaAndAccuracy m accuracy >>> ((formatOf F).spacing x - e).toNat,
        (formatOf F).spacing x) := by
    rw [shiftToTargetExponent, shiftToExponent, htarget, hexponent]
  obtain ⟨hle, hnormal⟩ := significand_bounds hx hshift.roundedMantissa_eq
  obtain ⟨hcanonical, hvalue⟩ := shiftToTargetExponent_exact hle leastExponent_le_spacing hnormal
  refine ⟨_, _, hcanonical, hvalue.trans ?_, ?_⟩
  · rw [BinaryFormat.round, roundTo_eq, ← hshift.roundedMantissa_eq, Int.cast_natCast]
  · rw [roundWithAccuracy, hfirst]
    rfl

end ContextDiagram.Number
