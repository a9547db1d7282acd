import ContextDiagram.Proofs.Number.Arithmetic

namespace ContextDiagram.Number

open Float.Model BinaryFormat

noncomputable def readingDouble (x : Float) : Option EReal :=
  (double.decode x.toBits.toNat).reading

def IsRealDouble (x : Float) (r : ℝ) : Prop :=
  readingDouble x = some (r : EReal)

theorem reading_pack_unpack {F : Format} (hbits : 1 < F.exponentBits)
    {b : BitVec F.numBits} {a : EReal} (h : readingOf b = some a) :
    readingOf (UnpackedFloat.pack F (UnpackedFloat.unpack F b)) = some a := by
  have hextended := isExtended_unpack h
  generalize UnpackedFloat.unpack F b = u at hextended
  cases hextended with
  | real hreal => exact hreal.reading_pack hbits
  | infinity sign => exact reading_pack_infinity sign

theorem encode_lt {f : BinaryFormat} (negative : Bool) (m : ℕ) (e : ℤ) [NeZero f.precision] :
    f.encode (.finite negative m e) < 2 * 2 ^ f.exponentBits * f.fractionRange := by
  have hrange := f.fractionRange_pos
  have htop := f.topField_add_one
  obtain ⟨m', e', -, -, hnearest⟩ := nearest_eq (f := f) m e
  have hle : f.nearest m e ≤ f.infinityPattern := hnearest.trans_le (min_le_right _ _)
  have hlt : f.infinityPattern < 2 ^ f.exponentBits * f.fractionRange :=
    Nat.mul_lt_mul_of_pos_right (by omega) hrange
  have hsign : f.signBit negative ≤ 2 ^ f.exponentBits * f.fractionRange := by
    rw [signBit_eq]
    cases negative with
    | false =>
      rw [Bool.toNat_false, Nat.zero_mul, Nat.zero_mul]
      exact Nat.zero_le _
    | true => rw [Bool.toNat_true, Nat.one_mul]
  have hencode : f.encode (.finite negative m e) = f.signBit negative + f.nearest m e := rfl
  rw [hencode, Nat.mul_assoc]
  omega

section

variable {x y : Float32} {r s : ℝ}

theorem isValue_double (h : single.IsValue r) : double.IsValue r := by
  obtain ⟨m, e, hm, he, hr⟩ := h
  have hle : double.leastExponent ≤ single.leastExponent := by decide
  have hlt : (2 : ℤ) ^ single.precision < 2 ^ double.precision := by decide
  exact ⟨m, e, hm.trans hlt, hle.trans he, hr⟩

/-- The square of a number of single precision has at most twice as many bits. -/
theorem isValue_double_sq (h : single.IsValue r) (k : ℕ) : double.IsValue (2 ^ k * r ^ 2) := by
  obtain ⟨m, e, hm, he, hr⟩ := h
  have hleast : double.leastExponent ≤ 2 * single.leastExponent := by decide
  have hprecision : ((2 : ℤ) ^ single.precision) ^ 2 < 2 ^ double.precision := by decide
  refine ⟨m ^ 2, 2 * e + k, ?_, by omega, ?_⟩
  · rw [abs_pow]
    exact (pow_le_pow_left₀ (abs_nonneg m) hm.le 2).trans_lt hprecision
  · rw [hr, mul_pow, Int.cast_pow, zpow_add₀ two_ne_zero, zpow_natCast, mul_comm 2 e, zpow_mul,
      zpow_ofNat]
    ring

theorem limit_double : double.limit = 2 ^ 1024 :=
  rfl

theorem IsReal.abs_lt (h : IsReal x r) : |r| < single.limit :=
  h.unpack.abs_lt

theorem IsReal.isValue (h : IsReal x r) : single.IsValue r :=
  h.unpack.isValue

theorem isInf_eq_false (h : IsReal x r) : x.isInf = false := by
  have hu := h.unpack
  change x.toModel.unpack.isInf = false
  generalize x.toModel.unpack = u at hu ⊢
  cases hu <;> rfl

theorem exists_eq_finite {d : Datum} (h : d.reading = some (r : EReal)) :
    ∃ negative m e, d = .finite negative m e ∧ r = signed negative (m * 2 ^ e) := by
  cases d with
  | nan => cases h
  | infinite negative =>
    have he := Option.some.inj h
    cases negative with
    | false => exact absurd he.symm (EReal.coe_ne_top r)
    | true => exact absurd he.symm (EReal.coe_ne_bot r)
  | finite negative m e =>
    exact ⟨negative, m, e, rfl, (EReal.coe_eq_coe_iff.1 (Option.some.inj h)).symm⟩

theorem isRealDouble_ofBits {n : ℕ} (hn : n < 2 ^ 64)
    (h : (double.decode n).reading = some (r : EReal)) :
    IsRealDouble (Float.ofBits (UInt64.ofNat n)) r := by
  have htoNat : (UInt64.ofNat n).toBitVec.toNat = n := UInt64.toNat_ofNat_of_lt hn
  have hreading : readingOf (F := .binary64) (UInt64.ofNat n).toBitVec = some (r : EReal) := by
    rw [readingOf, htoNat]
    exact h
  exact reading_pack_unpack (by decide) hreading

theorem IsReal.widen (h : IsReal x r) : IsRealDouble (widen x) r := by
  obtain ⟨negative, m, e, hdatum, hr⟩ := exists_eq_finite h
  have hlimit : |r| < double.limit := by
    refine h.abs_lt.trans ?_
    rw [limit_single, limit_double]
    exact pow_lt_pow_right₀ one_lt_two (by norm_num)
  have hreading := reading_decode_encode (f := double) negative m e
  rw [← hr, (isValue_double h.isValue).rounded_eq hlimit] at hreading
  rw [Number.widen, hdatum]
  exact isRealDouble_ofBits (encode_lt negative m e) hreading

theorem reading_narrow {z : Float} (h : IsRealDouble z r) :
    reading (narrow z) = some (single.rounded r) := by
  obtain ⟨negative, m, e, hdatum, hr⟩ := exists_eq_finite h
  have hlt : single.encode (.finite negative m e) < 2 ^ 32 := encode_lt negative m e
  have htoNat : (UInt32.ofNat (single.encode (.finite negative m e))).toBitVec.toNat =
      single.encode (.finite negative m e) := UInt32.toNat_ofNat_of_lt hlt
  have hreading := reading_decode_encode (f := single) negative m e
  rw [← hr, ← htoNat] at hreading
  rw [narrow, hdatum]
  exact reading_pack_unpack (F := .binary32) (by decide) hreading

section

variable {a b z : Float} {p q low high : ℝ}

theorem exists_isRealDouble (h : readingDouble z = some (double.rounded r))
    (hlow : double.IsValue low) (hhigh : double.IsValue high) (hnonneg : 0 ≤ low)
    (hlimit : high < double.limit) (hr : low ≤ r) (hr' : r ≤ high) :
    ∃ t, IsRealDouble z t ∧ low ≤ t ∧ t ≤ high := by
  have hround := round_mono (f := double) hr
  have hround' := round_mono (f := double) hr'
  rw [hlow.round_eq] at hround
  rw [hhigh.round_eq] at hround'
  refine ⟨double.round r, ?_, hround, hround'⟩
  rw [rounded, clamp_of_abs_lt] at h
  · exact h
  · rw [abs_of_nonneg (hnonneg.trans hround)]
    exact hround'.trans_lt hlimit

theorem IsRealDouble.mul (ha : IsRealDouble a p) (hb : IsRealDouble b q) :
    readingDouble (a * b) = some (double.rounded (p * q)) :=
  reading_pack_mul (F := .binary64) (by decide) (isUnpacked_unpack ha) (isUnpacked_unpack hb)

theorem IsRealDouble.add (ha : IsRealDouble a p) (hb : IsRealDouble b q) :
    readingDouble (a + b) = some (double.rounded (p + q)) :=
  reading_pack_add (F := .binary64) (by decide) (isUnpacked_unpack ha) (isUnpacked_unpack hb)

theorem IsRealDouble.sqrt (ha : IsRealDouble a p) (hp : 0 ≤ p) :
    readingDouble a.sqrt = some (double.rounded (√p)) :=
  reading_pack_sqrt (F := .binary64) (by decide) (isUnpacked_unpack ha) hp

end

theorem IsReal.widen_sq (h : IsReal x r) :
    IsRealDouble (Number.widen x * Number.widen x) (r ^ 2) := by
  have hvalue := isValue_double_sq h.isValue 0
  have hlimit : |r ^ 2| < double.limit := by
    have habs := h.abs_lt
    rw [limit_single] at habs
    rw [limit_double, abs_pow]
    calc |r| ^ 2 < (2 ^ 128) ^ 2 := pow_lt_pow_left₀ habs (abs_nonneg r) two_ne_zero
      _ = 2 ^ 256 := by rw [← pow_mul]
      _ ≤ 2 ^ 1024 := pow_le_pow_right₀ one_le_two (by norm_num)
  rw [pow_zero, one_mul] at hvalue
  have hproduct := h.widen.mul h.widen
  rwa [← pow_two, hvalue.rounded_eq hlimit] at hproduct

theorem IsReal.isValue_max (hx : IsReal x r) (hy : IsReal y s) :
    single.IsValue (max |r| |s|) := by
  rcases max_choice |r| |s| with h | h
  · rw [h]
    exact hx.isValue.abs
  · rw [h]
    exact hy.isValue.abs

/-- The length of a finite vector is a number between its larger coordinate and twice as much,
rounded. -/
theorem reading_hypotenuse (hx : IsReal x r) (hy : IsReal y s) :
    ∃ t, reading (hypotenuse x y) = some (single.rounded t) ∧ max |r| |s| ≤ t ∧
      t ≤ 2 * max |r| |s| := by
  have hvalue := hx.isValue_max hy
  have hlimit : max |r| |s| < 2 ^ 128 := max_lt hx.abs_lt hy.abs_lt
  have hr : r ^ 2 ≤ max |r| |s| ^ 2 := sq_le_sq.2 ((le_max_left _ _).trans (le_abs_self _))
  have hs : s ^ 2 ≤ max |r| |s| ^ 2 := sq_le_sq.2 ((le_max_right _ _).trans (le_abs_self _))
  have hsum : max |r| |s| ^ 2 ≤ r ^ 2 + s ^ 2 := by
    rcases max_choice |r| |s| with h | h
    · rw [h, sq_abs]
      exact le_add_of_nonneg_right (sq_nonneg s)
    · rw [h, sq_abs]
      exact le_add_of_nonneg_left (sq_nonneg r)
  have hnonneg : 0 ≤ max |r| |s| := le_max_of_le_left (abs_nonneg r)
  generalize max |r| |s| = m at hvalue hlimit hr hs hsum hnonneg ⊢
  have hsq : m ^ 2 < 2 ^ 256 := by
    calc m ^ 2 < (2 ^ 128) ^ 2 := pow_lt_pow_left₀ hlimit hnonneg two_ne_zero
      _ = 2 ^ 256 := by rw [← pow_mul]
  have hlimit_sq : 2 * m ^ 2 < double.limit := by
    have hlarge : (2 : ℝ) * 2 ^ 256 ≤ double.limit := by
      rw [limit_double, ← pow_succ']
      exact pow_le_pow_right₀ one_le_two (by norm_num)
    exact (mul_lt_mul_of_pos_left hsq two_pos).trans_le hlarge
  have hone := isValue_double_sq hvalue 0
  have htwo := isValue_double_sq hvalue 1
  have hdouble := (isValue_double hvalue).mul_two_pow 1
  rw [pow_zero, one_mul] at hone
  rw [pow_one] at htwo
  rw [pow_one, mul_comm] at hdouble
  obtain ⟨p, hp, hp_low, hp_high⟩ := exists_isRealDouble (hx.widen_sq.add hy.widen_sq) hone htwo
    (sq_nonneg m) hlimit_sq hsum (by linarith)
  have hroot_low : m ≤ √p := Real.le_sqrt_of_sq_le hp_low
  have hroot_high : √p ≤ 2 * m := by
    refine Real.sqrt_le_iff.2 ⟨by linarith, ?_⟩
    rw [mul_pow]
    linarith [sq_nonneg m]
  have hlimit_double : 2 * m < double.limit := by
    have hlarge : (2 : ℝ) * 2 ^ 128 ≤ double.limit := by
      rw [limit_double, ← pow_succ']
      exact pow_le_pow_right₀ one_le_two (by norm_num)
    exact (mul_lt_mul_of_pos_left hlimit two_pos).trans_le hlarge
  obtain ⟨t, ht, ht_low, ht_high⟩ := exists_isRealDouble (hp.sqrt ((sq_nonneg m).trans hp_low))
    (isValue_double hvalue) hdouble hnonneg hlimit_double hroot_low hroot_high
  refine ⟨t, ?_, ht_low, ht_high⟩
  rw [hypotenuse, isInf_eq_false hx, isInf_eq_false hy, if_neg (by decide)]
  exact reading_narrow ht

end

end ContextDiagram.Number
