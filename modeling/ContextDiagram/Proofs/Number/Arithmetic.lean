import ContextDiagram.Proofs.Number.Comparison
import ContextDiagram.Plane.Scalar

namespace ContextDiagram.Number

open Float.Model BinaryFormat

noncomputable def reading (x : Float32) : Option EReal :=
  (datum x).reading

def IsReal (x : Float32) (r : ℝ) : Prop :=
  reading x = some (r : EReal)

section

variable {x y : Float32} {r s : ℝ}

theorem IsReal.unpack (h : IsReal x r) : IsUnpacked .binary32 x.toModel.unpack r :=
  isUnpacked_unpack h

theorem IsReal.add (hx : IsReal x r) (hy : IsReal y s) :
    reading (x + y) = some (single.rounded (r + s)) :=
  reading_pack_add (by decide) hx.unpack hy.unpack

theorem IsReal.sub (hx : IsReal x r) (hy : IsReal y s) :
    reading (x - y) = some (single.rounded (r - s)) :=
  reading_pack_sub (by decide) hx.unpack hy.unpack

theorem IsReal.mul (hx : IsReal x r) (hy : IsReal y s) :
    reading (x * y) = some (single.rounded (r * s)) :=
  reading_pack_mul (by decide) hx.unpack hy.unpack

theorem IsReal.div (hx : IsReal x r) (hy : IsReal y s) (hs : s ≠ 0) :
    reading (x / y) = some (single.rounded (r / s)) :=
  reading_pack_div (by decide) hx.unpack hy.unpack hs

theorem IsReal.neg (hx : IsReal x r) : IsReal (-x) (-r) :=
  hx.unpack.neg.reading_pack (by decide)

theorem IsReal.sqrt (hx : IsReal x r) (hr : 0 ≤ r) :
    reading x.sqrt = some (single.rounded (√r)) :=
  reading_pack_sqrt (by decide) hx.unpack hr

theorem isReal_one : IsReal (Float32.ofBits 0x3F800000) 1 := by
  have hdatum : datum (Float32.ofBits 0x3F800000) = .finite false (2 ^ 23) (-23) := by decide
  rw [IsReal, reading, hdatum, Datum.reading_finite, signed]
  norm_num

theorem isValue_natCast {n : ℕ} (h : n < 2 ^ 24) : single.IsValue n :=
  ⟨n, 0, by rw [Nat.abs_cast]; exact_mod_cast h, by decide,
    by rw [zpow_zero, mul_one, Int.cast_natCast]⟩

theorem limit_single : single.limit = 2 ^ 128 :=
  rfl

theorem rounded_natCast {n : ℕ} (h : n < 2 ^ 24) : single.rounded n = (n : ℝ) := by
  refine (isValue_natCast h).rounded_eq ?_
  have hlt : (n : ℝ) < 2 ^ 24 := by exact_mod_cast h
  rw [limit_single, abs_of_nonneg (Nat.cast_nonneg n)]
  exact hlt.trans (by norm_num)

/-- Small numbers go through an exact product, and the others through one with a power of two that
gives them enough bits. -/
theorem reading_ofNat (n : ℕ) : reading (Float32.ofNat n) = some (single.rounded n) := by
  rw [Float32.ofNat]
  change reading (Float32.ofScientific n false 0) = _
  rw [Float32.ofScientific]
  split
  · next h =>
    have hlt : n < 2 ^ 24 := h.1.trans (by norm_num)
    have htoNat : n.toUInt64.toNat = n := UInt64.toNat_ofNat_of_lt (hlt.trans (by decide))
    have hcast : reading n.toUInt64.toFloat32 = some (single.rounded n.toUInt64.toNat) :=
      reading_pack_ofNat (F := .binary32) (by decide) n.toUInt64.toNat
    rw [htoNat, rounded_natCast hlt] at hcast
    have hproduct := IsReal.mul hcast isReal_one
    rw [mul_one] at hproduct
    exact hproduct
  · next h =>
    have hlt : 2 ^ 23 ≤ n := by omega
    have hpos : 0 < n := (Nat.two_pow_pos 23).trans_le hlt
    have hpos' : (0 : ℝ) < n := by exact_mod_cast hpos
    change readingOf (UnpackedFloat.pack .binary32 (UnpackedFloat.ofScientific .binary32 n 0)) = _
    rw [UnpackedFloat.ofScientific, dif_neg hpos.ne', if_neg (by decide),
      if_neg (not_lt.2 (neg_nonpos.2 (by positivity))), if_pos le_rfl, UnpackedFloat.mul]
    have hvalue : (n : ℝ) / 2 ^ (-24 + 0 : ℤ) = (n <<< 24 * 10 ^ 0 : ℕ) := by
      rw [Nat.shiftLeft_eq, pow_zero, mul_one, Nat.cast_mul, Nat.cast_pow, Nat.cast_ofNat, add_zero,
        zpow_neg, div_inv_eq_mul]
      rfl
    have hspacing := le_spacing_of_two_zpow_le (f := single) (k := 0) hpos' (by
      rw [zpow_zero]
      exact_mod_cast hpos)
    have hrepresents := represents_exact (n <<< 24 * 10 ^ 0)
    rw [← hvalue] at hrepresents
    exact reading_pack_roundWithAccuracy (F := .binary32) (by decide) .positive hpos' hrepresents
      (le_trans (by decide) ((le_max_left _ _).trans hspacing))

/-- Numbers are compared as what they stand for, and what is not a number compares with nothing. -/
theorem compare_unpack (x y : Float32) : x.toModel.unpack.compare y.toModel.unpack =
    (reading x).bind fun a => (reading y).map fun b => compare a b := by
  have hnone {x : Float32} (h : reading x = none) : x.toModel.unpack = .notANumber :=
    unpack_of_reading_eq_none h
  cases hx : reading x with
  | none =>
    rw [hnone hx]
    cases y.toModel.unpack <;> rfl
  | some a =>
    cases hy : reading y with
    | none =>
      rw [hnone hy]
      cases x.toModel.unpack <;> rfl
    | some b => exact compare_extended (isExtended_unpack hx) (isExtended_unpack hy)

theorem lt_iff : x < y ↔ ∃ a b, reading x = some a ∧ reading y = some b ∧ a < b := by
  have hlt : x < y ↔ (x.toModel.unpack.compare y.toModel.unpack == some .lt) = true :=
    decide_eq_true_iff
  rw [hlt, beq_iff_eq, compare_unpack]
  simp only [Option.bind_eq_some_iff, Option.map_eq_some_iff, compare_lt_iff_lt,
    exists_and_left]

theorem le_iff : x ≤ y ↔ ∃ a b, reading x = some a ∧ reading y = some b ∧ a ≤ b := by
  have hle : x ≤ y ↔ (x.toModel.unpack.compare y.toModel.unpack).any (·.isLE) = true :=
    decide_eq_true_iff
  have hany {a b : EReal} : (compare a b).isLE = true ↔ a ≤ b := by
    rw [Ordering.isLE_iff_ne_gt, compare_gt_iff_gt, not_lt]
  rw [hle, compare_unpack]
  simp only [Option.any_bind, Option.any_map, Option.any_eq_true, Function.comp_apply, hany,
    exists_and_left]

theorem beq_iff : (x == y) = true ↔ ∃ a, reading x = some a ∧ reading y = some a := by
  have hbeq : (x == y) = (x.toModel.unpack.compare y.toModel.unpack == some .eq) := rfl
  rw [hbeq, beq_iff_eq, compare_unpack]
  simp only [Option.bind_eq_some_iff, Option.map_eq_some_iff, compare_eq_iff_eq, exists_eq_right']

theorem reading_eq (x : Float32) :
    reading x = (datumOf .binary32 x.toModel.unpack).reading :=
  congrArg Datum.reading (decode_toNat (F := .binary32) x.toModel.toBits.toBitVec)

theorem isFinite_iff : x.isFinite = true ↔ ∃ r, IsReal x r := by
  have hfinite : x.isFinite = x.toModel.unpack.isFinite := rfl
  rw [hfinite]
  constructor
  · intro h
    change ∃ r : ℝ, reading x = some (r : EReal)
    rw [reading_eq]
    cases hu : x.toModel.unpack with
    | notANumber =>
      rw [hu] at h
      cases h
    | infinity sign =>
      rw [hu] at h
      cases h
    | zero sign => exact ⟨_, rfl⟩
    | finite sign m e hm => exact ⟨_, rfl⟩
  · rintro ⟨r, h⟩
    have hu := h.unpack
    generalize x.toModel.unpack = u at hu ⊢
    cases hu <;> rfl

end

end ContextDiagram.Number
