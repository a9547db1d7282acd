import ContextDiagram.Proofs.Number.Arithmetic

namespace ContextDiagram.Number

open Float.Model BinaryFormat Plane

/-- Whether a single precision number is not negative, be it finite or not. -/
def IsMagnitude (x : Float32) : Prop :=
  ∃ a, reading x = some a ∧ 0 ≤ a

section

variable {x y : Float32} {r s t : ℝ} {a b : EReal}

theorem isFinite_of_add (h : (x + y).isFinite = true) : x.isFinite = true ∧ y.isFinite = true := by
  obtain ⟨r, hr⟩ := isFinite_iff.1 h
  have hsum : (UnpackedFloat.add .binary32 x.toModel.unpack y.toModel.unpack).isFinite = true :=
    isFinite_of_reading_pack hr
  change x.toModel.unpack.isFinite = true ∧ y.toModel.unpack.isFinite = true
  generalize x.toModel.unpack = u at hsum ⊢
  generalize y.toModel.unpack = v at hsum ⊢
  cases u with
  | notANumber => cases hsum
  | infinity s =>
    cases v with
    | infinity t => cases s <;> cases t <;> cases hsum
    | notANumber => cases hsum
    | zero t => cases hsum
    | finite t n d hn => cases hsum
  | zero s =>
    cases v with
    | infinity t => cases hsum
    | notANumber => cases hsum
    | zero t => exact ⟨rfl, rfl⟩
    | finite t n d hn => exact ⟨rfl, rfl⟩
  | finite s m e hm =>
    cases v with
    | infinity t => cases hsum
    | notANumber => cases hsum
    | zero t => exact ⟨rfl, rfl⟩
    | finite t n d hn => exact ⟨rfl, rfl⟩

theorem isFinite_of_mul (h : (x * y).isFinite = true) : x.isFinite = true ∧ y.isFinite = true := by
  obtain ⟨r, hr⟩ := isFinite_iff.1 h
  have hproduct :
      (UnpackedFloat.mul .binary32 x.toModel.unpack y.toModel.unpack).isFinite = true :=
    isFinite_of_reading_pack hr
  change x.toModel.unpack.isFinite = true ∧ y.toModel.unpack.isFinite = true
  generalize x.toModel.unpack = u at hproduct ⊢
  generalize y.toModel.unpack = v at hproduct ⊢
  cases u with
  | notANumber => cases hproduct
  | infinity s => cases v <;> cases hproduct
  | zero s =>
    cases v with
    | infinity t => cases hproduct
    | notANumber => cases hproduct
    | zero t => exact ⟨rfl, rfl⟩
    | finite t n d hn => exact ⟨rfl, rfl⟩
  | finite s m e hm =>
    cases v with
    | infinity t => cases hproduct
    | notANumber => cases hproduct
    | zero t => exact ⟨rfl, rfl⟩
    | finite t n d hn => exact ⟨rfl, rfl⟩

theorem IsReal.eq (h : IsReal x r) (h' : IsReal x s) : r = s :=
  EReal.coe_eq_coe_iff.1 (Option.some.inj (h.symm.trans h'))

theorem IsReal.rounded_eq (h : IsReal x r) : single.rounded r = r :=
  h.unpack.rounded_eq

theorem IsReal.isMagnitude (h : IsReal x r) (hr : 0 ≤ r) : IsMagnitude x :=
  ⟨r, h, EReal.coe_nonneg.2 hr⟩

theorem IsMagnitude.nonneg (h : IsMagnitude x) (hr : IsReal x r) : 0 ≤ r := by
  obtain ⟨a, ha, hnonneg⟩ := h
  rw [Option.some.inj (ha.symm.trans hr)] at hnonneg
  exact EReal.coe_nonneg.1 hnonneg

theorem rounded_nonneg (h : 0 ≤ r) : 0 ≤ single.rounded r := by
  have hround := rounded_mono (f := single) h
  rwa [rounded_zero, EReal.coe_zero] at hround

/-- What lies between two numbers that are rounded to finite ones is rounded to a number between
them. -/
theorem exists_isReal_of_between {z : Float32} {low high : ℝ}
    (hz : reading z = some (single.rounded t)) (hlow : single.rounded low = r)
    (hhigh : single.rounded high = s) (ht : low ≤ t) (ht' : t ≤ high) :
    ∃ q, IsReal z q ∧ r ≤ q ∧ q ≤ s := by
  have hlow' := rounded_mono (f := single) ht
  have hhigh' := rounded_mono (f := single) ht'
  rw [hlow] at hlow'
  rw [hhigh] at hhigh'
  lift single.rounded t to ℝ using
    ⟨(hhigh'.trans_lt (EReal.coe_lt_top s)).ne, ((EReal.bot_lt_coe r).trans_le hlow').ne'⟩
    with q
  exact ⟨q, hz, EReal.coe_le_coe_iff.1 hlow', EReal.coe_le_coe_iff.1 hhigh'⟩

theorem exists_isReal_of_abs_le {z : Float32} {bound : ℝ}
    (hz : reading z = some (single.rounded t)) (hbound : single.rounded bound = r)
    (ht : |t| ≤ bound) : ∃ q, IsReal z q ∧ |q| ≤ r := by
  obtain ⟨hlow, hhigh⟩ := abs_le.1 ht
  have hbound' : single.rounded (-bound) = (-r : ℝ) := by rw [rounded_neg, hbound, EReal.coe_neg]
  obtain ⟨q, hq, hr, hr'⟩ := exists_isReal_of_between hz hbound' hbound hlow hhigh
  exact ⟨q, hq, abs_le.2 ⟨hr, hr'⟩⟩

theorem IsMagnitude.eq_infinity (h : IsMagnitude x) (hfinite : x.isFinite = false) :
    x.toModel.unpack = .infinity .positive := by
  obtain ⟨a, ha, hnonneg⟩ := h
  have hextended : IsExtended .binary32 x.toModel.unpack a := isExtended_unpack ha
  change x.toModel.unpack.isFinite = false at hfinite
  generalize x.toModel.unpack = u at hextended hfinite ⊢
  cases hextended with
  | real hreal => cases hreal <;> cases hfinite
  | infinity sign =>
    cases sign with
    | negative => exact absurd hnonneg (not_le.2 EReal.bot_lt_zero)
    | positive => rfl

theorem reading_of_unpack (h : x.toModel.unpack = .infinity .positive) : reading x = some ⊤ := by
  rw [reading_eq, h]
  rfl

theorem IsMagnitude.cases (h : IsMagnitude x) :
    (∃ r, IsReal x r ∧ 0 ≤ r) ∨ x.toModel.unpack = .infinity .positive := by
  cases hfinite : x.isFinite with
  | false => exact .inr (h.eq_infinity hfinite)
  | true =>
    obtain ⟨r, hr⟩ := isFinite_iff.1 hfinite
    exact .inl ⟨r, hr, h.nonneg hr⟩

theorem IsMagnitude.add (hx : IsMagnitude x) (hy : IsMagnitude y) : IsMagnitude (x + y) := by
  -- A sum with an infinite part is infinite.
  have htop (h : UnpackedFloat.add .binary32 x.toModel.unpack y.toModel.unpack =
      .infinity .positive) : IsMagnitude (x + y) := by
    refine ⟨⊤, ?_, le_top⟩
    change readingOf (UnpackedFloat.pack .binary32
      (UnpackedFloat.add .binary32 x.toModel.unpack y.toModel.unpack)) = some ⊤
    rw [h]
    exact reading_pack_infinity .positive
  rcases hx.cases with ⟨r, hr, hr'⟩ | hx
  · rcases hy.cases with ⟨s, hs, hs'⟩ | hy
    · exact ⟨_, hr.add hs, rounded_nonneg (add_nonneg hr' hs')⟩
    · apply htop
      have hu := hr.unpack
      rw [hy]
      generalize x.toModel.unpack = u at hu ⊢
      cases hu <;> rfl
  · apply htop
    rw [hx]
    rcases hy.cases with ⟨s, hs, -⟩ | hy
    · have hv := hs.unpack
      generalize y.toModel.unpack = v at hv ⊢
      cases hv <;> rfl
    · rw [hy]
      rfl

theorem IsMagnitude.mul (hx : IsReal x r) (hr : 0 < r) (hy : IsMagnitude y) :
    IsMagnitude (x * y) := by
  rcases hy.cases with ⟨s, hs, hs'⟩ | hy
  · exact ⟨_, hx.mul hs, rounded_nonneg (mul_nonneg hr.le hs')⟩
  · refine ⟨⊤, ?_, le_top⟩
    have hu := hx.unpack
    change readingOf (UnpackedFloat.pack .binary32
      (UnpackedFloat.mul .binary32 x.toModel.unpack y.toModel.unpack)) = some ⊤
    rw [hy]
    generalize x.toModel.unpack = u at hu ⊢
    cases hu with
    | zero s => exact absurd rfl hr.ne'
    | @finite s m e hm h hlimit =>
      cases s with
      | negative =>
        have hpos : (0 : ℝ) < m * 2 ^ e := mul_pos (by exact_mod_cast hm) (by positivity)
        exact absurd hr (not_lt.2 (neg_neg_of_pos hpos).le)
      | positive => exact reading_pack_infinity .positive

theorem IsMagnitude.exists_isReal (hy : IsMagnitude y) (hx : IsReal x r) (h : ¬x < y) :
    ∃ s, IsReal y s ∧ 0 ≤ s ∧ s ≤ r := by
  rcases hy.cases with ⟨s, hs, hs'⟩ | hy
  · refine ⟨s, hs, hs', not_lt.1 fun hlt => h ?_⟩
    exact lt_iff.2 ⟨r, s, hx, hs, EReal.coe_lt_coe_iff.2 hlt⟩
  · exact absurd (lt_iff.2 ⟨r, ⊤, hx, reading_of_unpack hy, EReal.coe_lt_top r⟩) h

theorem exists_isReal_add (h : IsReal (x + y) t) :
    ∃ r s, IsReal x r ∧ IsReal y s ∧ single.rounded (r + s) = t := by
  obtain ⟨hx, hy⟩ := isFinite_of_add (isFinite_iff.2 ⟨t, h⟩)
  obtain ⟨r, hr⟩ := isFinite_iff.1 hx
  obtain ⟨s, hs⟩ := isFinite_iff.1 hy
  exact ⟨r, s, hr, hs, Option.some.inj ((hr.add hs).symm.trans h)⟩

/-- A finite sum is not below one of its parts, if the other one is a length. -/
theorem IsMagnitude.exists_isReal_left (hy : IsMagnitude y) (h : IsReal (x + y) t) :
    ∃ r, IsReal x r ∧ r ≤ t := by
  obtain ⟨r, s, hr, hs, ht⟩ := exists_isReal_add h
  have hle := rounded_mono (f := single) (le_add_of_nonneg_right (a := r) (hy.nonneg hs))
  rw [hr.rounded_eq, ht] at hle
  exact ⟨r, hr, EReal.coe_le_coe_iff.1 hle⟩

theorem IsMagnitude.exists_isReal_right (hx : IsMagnitude x) (h : IsReal (x + y) t) :
    ∃ s, IsReal y s ∧ s ≤ t := by
  obtain ⟨r, s, hr, hs, ht⟩ := exists_isReal_add h
  have hle := rounded_mono (f := single) (le_add_of_nonneg_left (a := s) (hx.nonneg hr))
  rw [hs.rounded_eq, ht] at hle
  exact ⟨s, hs, EReal.coe_le_coe_iff.1 hle⟩

theorem IsMagnitude.exists_isReal_factor (hy : IsMagnitude y) (hx : IsReal x r) (hr : 1 ≤ r)
    (h : IsReal (x * y) t) : ∃ s, IsReal y s ∧ s ≤ t := by
  obtain ⟨-, hy'⟩ := isFinite_of_mul (isFinite_iff.2 ⟨t, h⟩)
  obtain ⟨s, hs⟩ := isFinite_iff.1 hy'
  have hle := rounded_mono (f := single) (le_mul_of_one_le_left (hy.nonneg hs) hr)
  rw [hs.rounded_eq, ← Option.some.inj (h.symm.trans (hx.mul hs))] at hle
  exact ⟨s, hs, EReal.coe_le_coe_iff.1 hle⟩

theorem reading_largerSingle (hx : reading x = some a) (hy : reading y = some b) :
    reading (largerSingle x y) = some (max a b) := by
  have hnan : x.isNaN = false := by
    have hu : IsExtended .binary32 x.toModel.unpack a := isExtended_unpack hx
    change x.toModel.unpack.isNaN = false
    generalize x.toModel.unpack = u at hu ⊢
    cases hu with
    | real hreal => cases hreal <;> rfl
    | infinity sign => rfl
  rw [largerSingle, hnan, Bool.false_or]
  by_cases hlt : a < b
  · rw [if_pos (decide_eq_true (lt_iff.2 ⟨a, b, hx, hy, hlt⟩)), hy, max_eq_right hlt.le]
  · have hnot : ¬x < y := by
      intro h
      obtain ⟨a', b', ha, hb, hab⟩ := lt_iff.1 h
      rw [hx] at ha
      rw [hy] at hb
      rw [Option.some.inj ha, Option.some.inj hb] at hlt
      exact hlt hab
    rw [if_neg (by rw [decide_eq_true_iff]; exact hnot), hx, max_eq_left (not_lt.1 hlt)]

end

theorem isReal_zero : IsReal Scalar.zero 0 := by
  have hzero := reading_ofNat 0
  rw [rounded_natCast (by norm_num), Nat.cast_zero] at hzero
  exact hzero

section

variable {x : Float32} {xs : List Float32} {r : ℝ}

theorem reading_foldl_larger {a : EReal} (hxs : ∀ x ∈ xs, IsMagnitude x) (hx : reading x = some a) :
    ∃ m, reading (xs.foldl largerSingle x) = some m ∧ a ≤ m ∧
      ∀ y ∈ xs, ∃ b, reading y = some b ∧ b ≤ m := by
  induction xs generalizing x a with
  | nil => exact ⟨a, hx, le_rfl, nofun⟩
  | cons y xs ih =>
    obtain ⟨hy, hxs⟩ := List.forall_mem_cons.1 hxs
    obtain ⟨b, hb, -⟩ := hy
    obtain ⟨m, hm, hmax, hall⟩ := ih hxs (reading_largerSingle hx hb)
    refine ⟨m, hm, (le_max_left a b).trans hmax, List.forall_mem_cons.2 ⟨?_, hall⟩⟩
    exact ⟨b, hb, (le_max_right a b).trans hmax⟩

/-- A sum of lengths is a length, and if it is finite then so is every sum on the way. -/
theorem isMagnitude_foldl_add (hxs : ∀ x ∈ xs, IsMagnitude x) (hx : IsMagnitude x) :
    IsMagnitude (xs.foldl (· + ·) x) ∧
      ∀ r, IsReal (xs.foldl (· + ·) x) r → ∃ s, IsReal x s ∧ s ≤ r := by
  induction xs generalizing x with
  | nil => exact ⟨hx, fun r hr => ⟨r, hr, le_rfl⟩⟩
  | cons y xs ih =>
    obtain ⟨hy, hxs⟩ := List.forall_mem_cons.1 hxs
    obtain ⟨hmagnitude, hparts⟩ := ih hxs (hx.add hy)
    refine ⟨hmagnitude, fun r hr => ?_⟩
    obtain ⟨t, ht, htr⟩ := hparts r hr
    obtain ⟨s, hs, hst⟩ := hy.exists_isReal_left ht
    exact ⟨s, hs, hst.trans htr⟩

theorem exists_isReal_of_largest (hxs : ∀ x ∈ xs, IsMagnitude x)
    (h : IsReal (Scalar.largest xs) r) : ∀ x ∈ xs, ∃ s, IsReal x s ∧ s ≤ r := by
  intro x hx
  obtain ⟨m, hm, -, hall⟩ := reading_foldl_larger hxs isReal_zero
  obtain ⟨b, hb, hbm⟩ := hall x hx
  rw [Option.some.inj (hm.symm.trans h)] at hbm
  rcases (hxs x hx).cases with ⟨s, hs, -⟩ | htop
  · rw [Option.some.inj (hb.symm.trans hs)] at hbm
    exact ⟨s, hs, EReal.coe_le_coe_iff.1 hbm⟩
  · rw [Option.some.inj (hb.symm.trans (reading_of_unpack htop))] at hbm
    exact absurd hbm (not_le.2 (EReal.coe_lt_top r))

theorem isMagnitude_largest (hxs : ∀ x ∈ xs, IsMagnitude x) : IsMagnitude (Scalar.largest xs) := by
  obtain ⟨m, hm, hle, -⟩ := reading_foldl_larger hxs isReal_zero
  exact ⟨m, hm, (EReal.coe_zero.symm.trans_le hle)⟩

end

end ContextDiagram.Number
