import ContextDiagram.Proofs.Number.Model

namespace ContextDiagram.Number

open Float.Model UnpackedFloat BinaryFormat

def isNegative : Sign → Bool
  | .negative => true
  | .positive => false

theorem isNegative_ofBitVec (b : BitVec 1) : isNegative (.ofBitVec b) = (b.toNat == 1) := by
  have h : ∀ b : BitVec 1, isNegative (.ofBitVec b) = (b.toNat == 1) := by decide
  exact h b

theorem isNegative_mul (s t : Sign) : isNegative (s * t) = (isNegative s != isNegative t) := by
  cases s <;> cases t <;> rfl

theorem isNegative_div (s t : Sign) : isNegative (s / t) = (isNegative s != isNegative t) := by
  cases s <;> cases t <;> rfl

variable {F : Format}

def datumOf (F : Format) : UnpackedFloat → Datum
  | .notANumber => .nan
  | .infinity sign => .infinite (isNegative sign)
  | .zero sign => .finite (isNegative sign) 0 (formatOf F).leastExponent
  | .finite sign m e _ => .finite (isNegative sign) m e

section

variable (b : BitVec F.numBits)

theorem toNat_unpackMantissa :
    (unpackMantissa b).toNat = b.toNat % (formatOf F).fractionRange := by
  have hwidth : F.mantissaBitsWithoutImplicit - 1 - 0 + 1 = F.mantissaBitsWithoutImplicit :=
    Nat.sub_add_cancel F.hm
  rw [unpackMantissa, BitVec.toNat_cast, BitVec.extractLsb_toNat, hwidth, Nat.shiftRight_zero,
    fractionRange_formatOf]

theorem toNat_unpackExponent : (unpackExponent b).toNat =
    b.toNat / (formatOf F).fractionRange % 2 ^ F.exponentBits := by
  have hwidth : F.mantissaBitsWithoutImplicit + F.exponentBits - 1 -
      F.mantissaBitsWithoutImplicit + 1 = F.exponentBits := by
    have := F.he
    omega
  rw [unpackExponent, BitVec.toNat_cast, BitVec.extractLsb_toNat, hwidth, Nat.shiftRight_eq_div_pow,
    fractionRange_formatOf]

theorem toNat_unpackSign : (unpackSign b).toNat =
    b.toNat / (formatOf F).fractionRange / 2 ^ F.exponentBits % 2 := by
  rw [unpackSign, BitVec.toNat_cast, BitVec.extractLsb_toNat, Nat.sub_self,
    Nat.shiftRight_eq_div_pow, fractionRange_formatOf, pow_add, ← Nat.div_div_eq_div_mul]

theorem toNat_one_append {width : ℕ} (b : BitVec width) :
    (1#1 ++ b).toNat = 2 ^ width + b.toNat := by
  rw [BitVec.toNat_append, ← Nat.shiftLeft_add_eq_or_of_lt b.isLt, Nat.shiftLeft_eq,
    BitVec.toNat_ofNat, Nat.mod_eq_of_lt (by decide), Nat.one_mul]

theorem toNat_neg_one : (-1#F.exponentBits).toNat = (formatOf F).topField := by
  rw [BitVec.neg_one_eq_allOnes, BitVec.toNat_allOnes]
  rfl

theorem leastExponent_eq_bias :
    (formatOf F).leastExponent =
      1 - ((F.exponentBias : ℤ) + F.mantissaBitsWithoutImplicit) := by
  have hhalf : 1 ≤ 2 ^ (F.exponentBits - 1) := Nat.one_le_two_pow
  have hprecision : (formatOf F).precision = 1 + F.mantissaBitsWithoutImplicit := rfl
  have hbits : (formatOf F).exponentBits = F.exponentBits := rfl
  rw [leastExponent_eq, Format.exponentBias, hprecision, hbits]
  omega

theorem decode_toNat :
    (formatOf F).decode b.toNat = datumOf F (UnpackedFloat.unpack F b) := by
  have hleast := leastExponent_eq_bias (F := F)
  have hmax (c : BitVec F.exponentBits) : c.toNat = (formatOf F).topField ↔ c = -1#_ := by
    rw [← toNat_neg_one, BitVec.toNat_inj]
  have hzero {width : ℕ} (c : BitVec width) : c.toNat = 0 ↔ c = 0#_ := by
    rw [← BitVec.toNat_inj, BitVec.toNat_zero]
  rw [decode, UnpackedFloat.unpack]
  simp only [Nat.pow_eq, ← toNat_unpackMantissa, ← toNat_unpackExponent, ← toNat_unpackSign,
    ← isNegative_ofBitVec, hmax, hzero]
  split
  · split <;> rfl
  · split
    · next hsubnormal =>
      have hexponent : ((unpackExponent b).toNat : ℤ) = 0 := by
        rw [hsubnormal, BitVec.toNat_zero, Nat.cast_zero]
      split
      · next hm =>
        rw [hm, BitVec.toNat_zero]
        rfl
      · rw [hexponent, datumOf, Datum.finite.injEq]
        exact ⟨rfl, rfl, by omega⟩
    · rw [datumOf, toNat_one_append, fractionRange_formatOf, Datum.finite.injEq]
      exact ⟨rfl, rfl, by omega⟩

end

theorem toNat_packComponents (sign : Sign) (e : BitVec F.exponentBits)
    (m : BitVec F.mantissaBitsWithoutImplicit) :
    (packComponents F sign e m).toNat = (formatOf F).signBit (isNegative sign) +
      (e.toNat * (formatOf F).fractionRange + m.toNat) := by
  have hsign : sign.toBitVec.toNat = (isNegative sign).toNat := by
    cases sign <;> rfl
  rw [packComponents, BitVec.toNat_append, ← Nat.shiftLeft_add_eq_or_of_lt m.isLt,
    Nat.shiftLeft_eq, BitVec.toNat_append, ← Nat.shiftLeft_add_eq_or_of_lt e.isLt,
    Nat.shiftLeft_eq, hsign, signBit_eq, fractionRange_formatOf]
  ring

theorem toNat_packedInfinity (sign : Sign) : (packedInfinity F sign).toNat =
    (formatOf F).signBit (isNegative sign) + (formatOf F).infinityPattern := by
  rw [packedInfinity, toNat_packComponents, toNat_neg_one]
  rfl

theorem log2_eq_iff {m : ℕ} (hm : m ≠ 0) (hlt : m < 2 * (formatOf F).fractionRange) :
    m.log2 + 1 = F.mantissaBits ↔ (formatOf F).fractionRange ≤ m := by
  have hbound := hlt.trans_eq two_mul_fractionRange
  have hprecision : (formatOf F).precision = 1 + F.mantissaBitsWithoutImplicit := rfl
  have hlog := (Nat.log2_lt hm).2 hbound
  rw [fractionRange_formatOf, ← Nat.le_log2 hm, Format.mantissaBits]
  omega

theorem unpack_packedNaN : UnpackedFloat.unpack F (packedNaN F) = .notANumber := by
  have hmantissa : 1#F.mantissaBitsWithoutImplicit <<< (F.mantissaBitsWithoutImplicit - 1) ≠
      0#_ := by
    intro h
    have hpow : 2 ^ (F.mantissaBitsWithoutImplicit - 1) < 2 ^ F.mantissaBitsWithoutImplicit :=
      Nat.pow_lt_pow_right one_lt_two (Nat.sub_lt F.hm one_pos)
    have htoNat := congrArg BitVec.toNat h
    rw [BitVec.toNat_shiftLeft, BitVec.toNat_ofNat, Nat.mod_eq_of_lt (Nat.one_lt_two_pow F.hm.ne'),
      Nat.shiftLeft_eq, Nat.one_mul, Nat.mod_eq_of_lt hpow, BitVec.toNat_zero] at htoNat
    exact (Nat.two_pow_pos _).ne' htoNat
  rw [UnpackedFloat.unpack]
  simp only [packedNaN, unpackExponent_packComponents, unpackMantissa_packComponents]
  rw [if_pos trivial, if_neg hmantissa]

/-- Packing finds the pattern of a significand and an exponent. The exponent field of the smallest
numbers must not be the one of infinity, so it has at least two bits. -/
theorem toNat_pack_compose (hbits : 1 < F.exponentBits) (sign : Sign) {m : ℕ} {e : ℤ}
    (h : (formatOf F).IsCanonical m e) :
    (UnpackedFloat.pack F (compose sign m e)).toNat = (formatOf F).signBit (isNegative sign) +
      min ((formatOf F).pattern m e) (formatOf F).infinityPattern := by
  have hrange := (formatOf F).fractionRange_pos
  have hfour : 2 ^ 2 ≤ 2 ^ F.exponentBits := Nat.pow_le_pow_right two_pos hbits
  have htop : (formatOf F).topField + 1 = 2 ^ F.exponentBits := topField_add_one
  have hfield : (e + F.exponentBias + F.mantissaBitsWithoutImplicit).toNat =
      (e - (formatOf F).leastExponent).toNat + 1 := by
    have hleast := leastExponent_eq_bias (F := F)
    have hle := h.le
    omega
  rw [compose]
  split
  · next hzero =>
    obtain ⟨-, hpattern⟩ := pattern_of_lt h (hzero.trans_lt hrange)
    rw [UnpackedFloat.pack, packedZero, toNat_packComponents, hpattern, hzero, Nat.zero_min]
    simp
  · next hzero =>
    rw [UnpackedFloat.pack]
    rw [hfield]
    by_cases hnormal : (formatOf F).fractionRange ≤ m
    · obtain ⟨hdiv, hmod⟩ := fields_pattern h hnormal
      have hpattern := Nat.div_add_mod ((formatOf F).pattern m e) (formatOf F).fractionRange
      rw [← hdiv]
      split
      · next hover =>
        have hle : (formatOf F).infinityPattern ≤ (formatOf F).pattern m e :=
          (Nat.le_div_iff_mul_le hrange).1 (by omega)
        rw [toNat_packedInfinity, min_eq_right hle]
      · next hover =>
        have hlt : (formatOf F).pattern m e < (formatOf F).infinityPattern :=
          (Nat.div_lt_iff_lt_mul hrange).1 (by omega)
        have hfraction : m % (formatOf F).fractionRange = m - (formatOf F).fractionRange := by
          have hm := h.lt
          rw [Nat.mod_eq_sub_mod hnormal, Nat.mod_eq_of_lt (by omega)]
        rw [hdiv, hmod, Nat.mul_comm] at hpattern
        rw [if_pos ((log2_eq_iff hzero h.lt).2 hnormal), toNat_packComponents, BitVec.toNat_ofNat,
          BitVec.toNat_ofNat, Nat.mod_eq_of_lt (by omega), ← fractionRange_formatOf, hfraction,
          hdiv, hpattern, min_eq_left hlt.le]
    · have hlt := not_le.1 hnormal
      obtain ⟨he, hpattern⟩ := pattern_of_lt h hlt
      rw [he, sub_self, Int.toNat_zero, if_neg (by omega),
        if_neg (mt (log2_eq_iff hzero h.lt).1 hnormal), toNat_packComponents, BitVec.toNat_zero,
        Nat.zero_mul, Nat.zero_add, BitVec.toNat_ofNat, ← fractionRange_formatOf,
        Nat.mod_eq_of_lt hlt, ← he, hpattern, min_eq_left]
      exact hlt.le.trans (Nat.le_mul_of_pos_left _ (by omega))

end ContextDiagram.Number
