import ContextDiagram.Proofs.Number.Operations

namespace ContextDiagram.Number

open Float.Model UnpackedFloat BinaryFormat

variable {F : Format}

theorem compare_significands {m n : ℕ} {e d : ℤ} (h : (formatOf F).IsCanonical m e)
    (h' : (formatOf F).IsCanonical n d) :
    (compare e d).then (compare m n) = compare ((m : ℝ) * 2 ^ e) (n * 2 ^ d) := by
  -- The number with the larger exponent is normal, which makes it the larger one.
  have hlt {m n : ℕ} {e d : ℤ} (h : (formatOf F).IsCanonical m e)
      (h' : (formatOf F).IsCanonical n d) (hed : e < d) : (m : ℝ) * 2 ^ e < n * 2 ^ d := by
    have hnormal := h'.isNormal_or.resolve_right (h.le.trans_lt hed).ne'
    calc (m : ℝ) * 2 ^ e < 2 ^ ((formatOf F).precision + e) := h.lt_two_zpow
      _ ≤ 2 ^ ((formatOf F).precision - 1 + d) := zpow_le_zpow_right₀ one_le_two (by omega)
      _ ≤ n * 2 ^ d := two_zpow_le_of_normal hnormal
  rcases lt_trichotomy e d with hed | rfl | hed
  · rw [compare_lt_iff_lt.2 hed, compare_lt_iff_lt.2 (hlt h h' hed)]
    rfl
  · have hpow : (0 : ℝ) < 2 ^ e := by positivity
    rw [compare_eq_iff_eq.2 rfl]
    rcases lt_trichotomy m n with hmn | rfl | hmn
    · have hvalue : (m : ℝ) * 2 ^ e < n * 2 ^ e :=
        mul_lt_mul_of_pos_right (by exact_mod_cast hmn) hpow
      rw [compare_lt_iff_lt.2 hmn, compare_lt_iff_lt.2 hvalue]
      rfl
    · rw [compare_eq_iff_eq.2 rfl, compare_eq_iff_eq.2 rfl]
      rfl
    · have hvalue : (n : ℝ) * 2 ^ e < m * 2 ^ e :=
        mul_lt_mul_of_pos_right (by exact_mod_cast hmn) hpow
      rw [compare_gt_iff_gt.2 hmn, compare_gt_iff_gt.2 hvalue]
      rfl
  · rw [compare_gt_iff_gt.2 hed, compare_gt_iff_gt.2 (hlt h' h hed)]
    rfl

theorem compare_neg_neg (x y : ℝ) : compare (-x) (-y) = (compare x y).swap := by
  rcases lt_trichotomy x y with h | rfl | h
  · rw [compare_lt_iff_lt.2 h, compare_gt_iff_gt.2 (neg_lt_neg h)]
    rfl
  · rw [compare_eq_iff_eq.2 rfl, compare_eq_iff_eq.2 rfl]
    rfl
  · rw [compare_gt_iff_gt.2 h, compare_lt_iff_lt.2 (neg_lt_neg h)]
    rfl

section

variable {u v : UnpackedFloat} {x y : ℝ} {a b : EReal}

theorem compare_unpacked (hu : IsUnpacked F u x) (hv : IsUnpacked F v y) :
    u.compare v = some (compare x y) := by
  have hpos {m : ℕ} (hm : 0 < m) (e : ℤ) : 0 < (m : ℝ) * 2 ^ e :=
    mul_pos (by exact_mod_cast hm) (by positivity)
  cases hu with
  | zero s =>
    cases hv with
    | zero t => exact congrArg some (compare_eq_iff_eq.2 rfl).symm
    | @finite t n d hn h' hlimit' =>
      cases t with
      | negative => exact congrArg some (compare_gt_iff_gt.2 (neg_neg_of_pos (hpos hn d))).symm
      | positive => exact congrArg some (compare_lt_iff_lt.2 (hpos hn d)).symm
  | @finite s m e hm h hlimit =>
    cases hv with
    | zero t =>
      cases s with
      | negative => exact congrArg some (compare_lt_iff_lt.2 (neg_neg_of_pos (hpos hm e))).symm
      | positive => exact congrArg some (compare_gt_iff_gt.2 (hpos hm e)).symm
    | @finite t n d hn h' hlimit' =>
      cases s with
      | negative =>
        cases t with
        | negative =>
          exact congrArg some ((congrArg Ordering.swap (compare_significands h h')).trans
            (compare_neg_neg _ _).symm)
        | positive =>
          exact congrArg some
            (compare_lt_iff_lt.2 ((neg_neg_of_pos (hpos hm e)).trans (hpos hn d))).symm
      | positive =>
        cases t with
        | negative =>
          exact congrArg some
            (compare_gt_iff_gt.2 ((neg_neg_of_pos (hpos hn d)).trans (hpos hm e))).symm
        | positive => exact congrArg some (compare_significands h h')

theorem compare_coe (x y : ℝ) : compare (x : EReal) y = compare x y := by
  rcases lt_trichotomy x y with h | rfl | h
  · rw [compare_lt_iff_lt.2 h, compare_lt_iff_lt.2 (EReal.coe_lt_coe_iff.2 h)]
  · rw [compare_eq_iff_eq.2 rfl, compare_eq_iff_eq.2 rfl]
  · rw [compare_gt_iff_gt.2 h, compare_gt_iff_gt.2 (EReal.coe_lt_coe_iff.2 h)]

theorem IsUnpacked.compare_infinity (hu : IsUnpacked F u x) (sign : Sign) :
    u.compare (.infinity sign) = some (compare (x : EReal) (if isNegative sign then ⊥ else ⊤)) ∧
      UnpackedFloat.compare (.infinity sign) u =
        some (compare (if isNegative sign then ⊥ else ⊤) (x : EReal)) := by
  cases sign with
  | negative =>
    have hlt : compare (⊥ : EReal) x = .lt := compare_lt_iff_lt.2 (EReal.bot_lt_coe x)
    have hgt : compare (x : EReal) ⊥ = .gt := compare_gt_iff_gt.2 (EReal.bot_lt_coe x)
    cases hu <;> exact ⟨congrArg some hgt.symm, congrArg some hlt.symm⟩
  | positive =>
    have hlt : compare (x : EReal) ⊤ = .lt := compare_lt_iff_lt.2 (EReal.coe_lt_top x)
    have hgt : compare (⊤ : EReal) x = .gt := compare_gt_iff_gt.2 (EReal.coe_lt_top x)
    cases hu <;> exact ⟨congrArg some hlt.symm, congrArg some hgt.symm⟩

theorem compare_extended (hu : IsExtended F u a) (hv : IsExtended F v b) :
    u.compare v = some (compare a b) := by
  cases hu with
  | real hu =>
    cases hv with
    | real hv => exact (compare_unpacked hu hv).trans (congrArg some (compare_coe _ _).symm)
    | infinity t => exact (hu.compare_infinity t).1
  | infinity s =>
    cases hv with
    | real hv => exact (hv.compare_infinity s).2
    | infinity t =>
      have hbot : compare (⊥ : EReal) ⊥ = .eq := compare_eq_iff_eq.2 rfl
      have htop : compare (⊤ : EReal) ⊤ = .eq := compare_eq_iff_eq.2 rfl
      have hlt : compare (⊥ : EReal) ⊤ = .lt := compare_lt_iff_lt.2 bot_lt_top
      have hgt : compare (⊤ : EReal) ⊥ = .gt := compare_gt_iff_gt.2 bot_lt_top
      cases s with
      | negative =>
        cases t with
        | negative => exact congrArg some hbot.symm
        | positive => exact congrArg some hlt.symm
      | positive =>
        cases t with
        | negative => exact congrArg some hgt.symm
        | positive => exact congrArg some htop.symm

theorem unpack_of_reading_eq_none {bits : BitVec F.numBits} (h : readingOf bits = none) :
    UnpackedFloat.unpack F bits = .notANumber := by
  rw [readingOf, decode_toNat] at h
  cases hu : UnpackedFloat.unpack F bits with
  | notANumber => rfl
  | infinity sign =>
    rw [hu] at h
    cases h
  | zero sign =>
    rw [hu] at h
    cases h
  | finite sign m e hm =>
    rw [hu] at h
    cases h

theorem reading_pack_infinity (sign : Sign) :
    readingOf (UnpackedFloat.pack F (.infinity sign)) =
      some (if isNegative sign then ⊥ else ⊤) := by
  rw [readingOf, UnpackedFloat.pack, toNat_packedInfinity, decode_infinityPattern]
  rfl

theorem reading_pack_notANumber : readingOf (UnpackedFloat.pack F .notANumber) = none := by
  rw [readingOf, UnpackedFloat.pack, decode_toNat, unpack_packedNaN]
  rfl

/-- Only a number that is finite before it is packed is finite afterwards. -/
theorem isFinite_of_reading_pack (h : readingOf (UnpackedFloat.pack F u) = some (x : EReal)) :
    u.isFinite = true := by
  cases u with
  | notANumber =>
    rw [reading_pack_notANumber] at h
    cases h
  | infinity sign =>
    rw [reading_pack_infinity] at h
    have he := Option.some.inj h
    cases sign with
    | negative => exact absurd he.symm (EReal.coe_ne_bot x)
    | positive => exact absurd he.symm (EReal.coe_ne_top x)
  | zero sign => rfl
  | finite sign m e hm => rfl

end

end ContextDiagram.Number
