import ContextDiagram.Proofs.Layout.Placement
import ContextDiagram.Proofs.Layout.Rejection
import ContextDiagram.Proofs.Number.Bounds

namespace ContextDiagram.Layout

open Plane Number BinaryFormat

theorem isLength_iff {x : Float32} : Scalar.isLength x = true ↔ ∃ r, IsReal x r ∧ 0 ≤ r := by
  have hle : Scalar.le Scalar.zero x = true ↔ Scalar.zero ≤ x := decide_eq_true_iff
  have hfinite : Scalar.isFinite x = x.isFinite := rfl
  rw [Scalar.isLength, Bool.and_eq_true, hle, hfinite, isFinite_iff]
  constructor
  · rintro ⟨⟨r, hr⟩, h⟩
    obtain ⟨a, b, ha, hb, hab⟩ := le_iff.1 h
    rw [Option.some.inj (ha.symm.trans isReal_zero), Option.some.inj (hb.symm.trans hr)] at hab
    exact ⟨r, hr, EReal.coe_le_coe_iff.1 hab⟩
  · rintro ⟨r, hr, hnonneg⟩
    exact ⟨⟨r, hr⟩, le_iff.2 ⟨_, _, isReal_zero, hr, EReal.coe_le_coe_iff.2 hnonneg⟩⟩

theorem lt_of_checkFits {α : Type} [Scalar α] {rows : List (Row α)} {canvas : Size α}
    (h : checkFits rows canvas = .ok ()) :
    (∀ r ∈ rows, Scalar.lt canvas.width r.width = false) ∧
      Scalar.lt canvas.height (totalHeight rows) = false := by
  rw [checkFits] at h
  split at h
  · cases h
  · next hrows =>
    split at h
    · cases h
    · next hheight =>
      refine ⟨fun r hr => ?_, Bool.eq_false_iff.2 hheight⟩
      exact Bool.eq_false_iff.2 (List.find?_eq_none.1 hrows r hr)

namespace Row

variable {r : Row Float32}

def IsMeasured (r : Row Float32) : Prop :=
  ∀ cell ∈ r.cells, IsMagnitude cell.size.width ∧ IsMagnitude cell.size.height

theorem IsMeasured.width (h : r.IsMeasured) :
    ∀ x ∈ r.cells.map (·.size.width), IsMagnitude x :=
  List.forall_mem_map.2 fun cell hcell => (h cell hcell).1

theorem IsMeasured.height (h : r.IsMeasured) :
    ∀ x ∈ r.cells.map (·.size.height), IsMagnitude x :=
  List.forall_mem_map.2 fun cell hcell => (h cell hcell).2

theorem IsMeasured.isMagnitude_height (h : r.IsMeasured) : IsMagnitude r.height :=
  isMagnitude_largest h.height

theorem exists_isReal_length (h : r.length < 2 ^ 64) :
    ∃ l, IsReal (Scalar.ofNat r.length) l ∧ 1 ≤ l := by
  obtain ⟨l, hl⟩ := exists_isReal_ofNat h
  exact ⟨l, hl, isReal_ofNat_one.le_of_ofNat (Nat.le_add_left 1 r.others.length) hl⟩

theorem IsMeasured.isMagnitude_width (h : r.IsMeasured) (hlength : r.length < 2 ^ 64) :
    IsMagnitude r.width := by
  obtain ⟨l, hl, hone⟩ := exists_isReal_length hlength
  exact .mul hl (zero_lt_one.trans_le hone) (isMagnitude_largest h.width)

/-- A row of finite width has only cells of finite width. -/
theorem IsMeasured.exists_isReal_width (h : r.IsMeasured) (hlength : r.length < 2 ^ 64) {w : ℝ}
    (hw : IsReal r.width w) : ∀ cell ∈ r.cells, ∃ s, IsReal cell.size.width s ∧ s ≤ w := by
  intro cell hcell
  obtain ⟨l, hl, hone⟩ := exists_isReal_length hlength
  obtain ⟨p, hp, hpw⟩ := (isMagnitude_largest h.width).exists_isReal_factor hl hone hw
  obtain ⟨s, hs, hsp⟩ := exists_isReal_of_largest h.width hp cell.size.width
    (List.mem_map_of_mem hcell)
  exact ⟨s, hs, hsp.trans hpw⟩

theorem IsMeasured.isWithin_slotX (h : r.IsMeasured) (hlength : r.length < 2 ^ 64) {w : ℝ}
    (hw : IsReal r.width w) {slot : ℕ} (hslot : slot < r.length) : IsWithin (r.slotX slot) w := by
  obtain ⟨l, hl, hone⟩ := exists_isReal_length hlength
  obtain ⟨p, hp, -⟩ := (isMagnitude_largest h.width).exists_isReal_factor hl hone hw
  have hp_nonneg := (isMagnitude_largest h.width).nonneg hp
  have hproduct : BinaryFormat.single.rounded (l * p) = w :=
    Option.some.inj ((hl.mul hp).symm.trans hw)
  obtain ⟨i, hi⟩ := exists_isReal_ofNat (n := slot) (by omega)
  obtain ⟨k, hk⟩ := exists_isReal_ofNat (n := r.length - 1) (by omega)
  have hi_nonneg := isReal_zero.le_of_ofNat (Nat.zero_le slot) hi
  have hik := hi.le_of_ofNat (Nat.le_sub_one_of_lt hslot) hk
  have hkl := hk.le_of_ofNat (Nat.sub_le r.length 1) hl
  obtain ⟨q, hq, hq_nonneg, hqk⟩ := exists_isReal_half hk (hi_nonneg.trans hik)
  obtain ⟨d, hd, hdk⟩ := exists_isReal_of_abs_le (hi.sub hq) hk.rounded_eq
    (abs_le.2 ⟨by linarith, by linarith⟩)
  refine exists_isReal_of_abs_le (hd.mul hp) hproduct ?_
  rw [abs_mul, abs_of_nonneg hp_nonneg]
  exact mul_le_mul_of_nonneg_right (hdk.trans hkl) hp_nonneg

end Row

section

variable {rows : List (Row Float32)} {width height : ℝ}

theorem exists_isReal_height (hrows : ∀ r ∈ rows, r.IsMeasured) {sum : Float32}
    (hsum : IsMagnitude sum) (htotal : IsReal ((rows.map Row.height).foldl (· + ·) sum) height) :
    ∀ r ∈ rows, ∃ h, IsReal r.height h ∧ h ≤ height := by
  induction rows generalizing sum with
  | nil => nofun
  | cons r rows ih =>
    obtain ⟨hr, hrows⟩ := List.forall_mem_cons.1 hrows
    have hnext := hsum.add hr.isMagnitude_height
    refine List.forall_mem_cons.2 ⟨?_, ih hrows hnext htotal⟩
    obtain ⟨s, hs, hle⟩ := (isMagnitude_foldl_add
      (List.forall_mem_map.2 fun r hr => (hrows r hr).isMagnitude_height) hnext).2 height htotal
    obtain ⟨h, hh, hhs⟩ := hsum.exists_isReal_right hs
    exact ⟨h, hh, hhs.trans hle⟩

theorem exists_isReal_of_checkFits (hrows : ∀ r ∈ rows, r.IsMeasured)
    (hlength : ∀ r ∈ rows, r.length < 2 ^ 64) {canvas : Size Float32}
    (hwidth : IsReal canvas.width width) (hheight : IsReal canvas.height height)
    (h : checkFits rows canvas = .ok ()) :
    (∀ r ∈ rows, ∃ w, IsReal r.width w ∧ w ≤ width) ∧
      ∃ total, IsReal (totalHeight rows) total ∧ 0 ≤ total ∧ total ≤ height := by
  obtain ⟨hwide, hhigh⟩ := lt_of_checkFits h
  constructor
  · intro r hr
    obtain ⟨w, hw, -, hle⟩ := ((hrows r hr).isMagnitude_width (hlength r hr)).exists_isReal hwidth
      (of_decide_eq_false (hwide r hr))
    exact ⟨w, hw, hle⟩
  · have hsum := isMagnitude_foldl_add
      (List.forall_mem_map.2 fun r hr => (hrows r hr).isMagnitude_height)
      (isReal_zero.isMagnitude le_rfl)
    exact hsum.1.exists_isReal hheight (of_decide_eq_false hhigh)

/-- The centres of rows that are stacked below a point lie at most as far below it as the rows are
high, whatever is rounded on the way. -/
theorem isWithin_of_mem_stackCenters (hrows : ∀ r ∈ rows, r.IsMeasured)
    (hlength : ∀ r ∈ rows, r.length < 2 ^ 64)
    (hwidth : ∀ r ∈ rows, ∃ w, IsReal r.width w ∧ w ≤ width) {sum top : Float32} {s t : ℝ}
    (hsum : IsReal sum s) (htop : IsReal top t)
    (htotal : IsReal ((rows.map Row.height).foldl (· + ·) sum) height) (hs : 0 ≤ s) (hst : -s ≤ t)
    (ht : t ≤ height) :
    ∀ p ∈ stackCenters top rows, IsWithin p.x width ∧ IsWithin p.y height := by
  induction rows generalizing sum top s t with
  | nil => nofun
  | cons r rows ih =>
    obtain ⟨hr, hrows⟩ := List.forall_mem_cons.1 hrows
    obtain ⟨hr_length, hlength⟩ := List.forall_mem_cons.1 hlength
    obtain ⟨⟨w, hw, hw_le⟩, hwidth⟩ := List.forall_mem_cons.1 hwidth
    have hnext := (hsum.isMagnitude hs).add hr.isMagnitude_height
    obtain ⟨s', hs', hs'_le⟩ := (isMagnitude_foldl_add
      (List.forall_mem_map.2 fun r hr => (hrows r hr).isMagnitude_height) hnext).2 height htotal
    obtain ⟨h, hh, -⟩ := (hsum.isMagnitude hs).exists_isReal_right hs'
    have hh_nonneg := hr.isMagnitude_height.nonneg hh
    have hlow : single.rounded (-(s + h)) = (-s' : ℝ) := by
      rw [rounded_neg, EReal.coe_neg, Option.some.inj ((hsum.add hh).symm.trans hs')]
    obtain ⟨q, hq, hq_nonneg, hq_le⟩ := exists_isReal_half hh hh_nonneg
    obtain ⟨y, hy, hy_low, hy_high⟩ := exists_isReal_of_between (htop.sub hq) hlow
      htotal.rounded_eq (by linarith) (by linarith)
    obtain ⟨t', ht', ht'_low, ht'_high⟩ := exists_isReal_of_between (htop.sub hh) hlow
      htotal.rounded_eq (by linarith) (by linarith)
    rw [stackCenters]
    refine List.forall_mem_append.2 ⟨?_, ?_⟩
    · refine List.forall_mem_map.2 fun slot hslot => ?_
      exact ⟨(hr.isWithin_slotX hr_length hw (List.mem_range.1 hslot)).mono hw_le,
        y, hy, abs_le.2 ⟨by linarith, hy_high⟩⟩
    · exact ih hrows hlength hwidth hs' ht' htotal (hnext.nonneg hs') ht'_low ht'_high

end

structure SizedContext.LiesWithin (c : SizedContext Float32) (width height : ℝ) : Prop where
  isReal_width : ∃ s, IsReal c.size.width s ∧ 0 ≤ s ∧ s ≤ width
  isReal_height : ∃ s, IsReal c.size.height s ∧ 0 ≤ s ∧ s ≤ height
  isWithin_center : ∃ p, c.center = some p ∧ IsWithin p.x width ∧ IsWithin p.y height

section

variable {contexts placed : List (SizedContext Float32)} {canvas : Size Float32}
  {margin : Spacing Float32}

theorem isMagnitude_cell {size : Float32} (hsize : Scalar.isLength size = true) {space : Float32}
    (hspace : Scalar.isLength space = true) :
    IsMagnitude (size + Scalar.ofNat 2 * space) ∧
      ∀ b, IsReal (size + Scalar.ofNat 2 * space) b → ∃ s, IsReal size s ∧ 0 ≤ s ∧ s ≤ b := by
  obtain ⟨s, hs, hs_nonneg⟩ := isLength_iff.1 hsize
  obtain ⟨q, hq, hq_nonneg⟩ := isLength_iff.1 hspace
  have hspace := IsMagnitude.mul isReal_ofNat_two two_pos (hq.isMagnitude hq_nonneg)
  refine ⟨(hs.isMagnitude hs_nonneg).add hspace, fun b hb => ?_⟩
  obtain ⟨s', hs', hle⟩ := hspace.exists_isReal_left hb
  rw [← hs.eq hs'] at hle
  exact ⟨s, hs, hs_nonneg, hle⟩

theorem isMeasured_of_mem_rowsOf (hmargin : margin.isValid = true)
    (hsizes : ∀ c ∈ contexts, c.size.isValid = true) {r : Row Float32}
    (hr : r ∈ rowsOf contexts canvas margin) : r.IsMeasured := by
  intro cell hcell
  have hmem : cell ∈ contexts.map (·.cell margin) := by
    rw [← flatMap_cells_rowsOf contexts canvas margin]
    exact List.mem_flatMap.2 ⟨r, hr, hcell⟩
  obtain ⟨c, hc, rfl⟩ := List.mem_map.1 hmem
  obtain ⟨hwidth, hheight⟩ := Bool.and_eq_true_iff.1 (hsizes c hc)
  obtain ⟨hhorizontal, hvertical⟩ := Bool.and_eq_true_iff.1 hmargin
  exact ⟨(isMagnitude_cell hwidth hhorizontal).1, (isMagnitude_cell hheight hvertical).1⟩

theorem length_le_of_mem_rowsOf {r : Row Float32} (hr : r ∈ rowsOf contexts canvas margin) :
    r.length ≤ contexts.length := by
  rw [← List.length_map (fun c : SizedContext Float32 => c.cell margin),
    ← flatMap_cells_rowsOf contexts canvas margin, List.length_flatMap]
  exact List.le_sum_of_mem (List.mem_map.2 ⟨r, hr, r.length_cells⟩)

/-- A distribution that succeeds keeps every context within the lengths of the canvas. -/
theorem liesWithin_of_distribute (h : distribute contexts canvas margin = .ok placed)
    (hcount : contexts.length < 2 ^ 64) {width height : ℝ} (hwidth : IsReal canvas.width width)
    (hheight : IsReal canvas.height height) : ∀ c ∈ placed, c.LiesWithin width height := by
  obtain ⟨hvalid, hfits, rfl⟩ := distribute_eq_ok_iff.1 h
  obtain ⟨-, hmargin, hsizes⟩ := validate_eq_ok_iff.1 hvalid
  have hmeasured (r) (hr : r ∈ rowsOf contexts canvas margin) : r.IsMeasured :=
    isMeasured_of_mem_rowsOf hmargin hsizes hr
  have hlength (r) (hr : r ∈ rowsOf contexts canvas margin) : r.length < 2 ^ 64 :=
    (length_le_of_mem_rowsOf hr).trans_lt hcount
  obtain ⟨hwidths, total, htotal, htotal_nonneg, htotal_le⟩ :=
    exists_isReal_of_checkFits hmeasured hlength hwidth hheight hfits
  obtain ⟨top, htop, htop_nonneg, htop_le⟩ := exists_isReal_half htotal htotal_nonneg
  intro c hc
  rw [← List.map_uncurry_zip_eq_zipWith] at hc
  obtain ⟨⟨d, p⟩, hmem, rfl⟩ := List.mem_map.1 hc
  obtain ⟨hd, hp⟩ := List.of_mem_zip hmem
  have hcell : d.cell margin ∈ (rowsOf contexts canvas margin).flatMap Row.cells := by
    rw [flatMap_cells_rowsOf]
    exact List.mem_map_of_mem hd
  obtain ⟨r, hr, hcell⟩ := List.mem_flatMap.1 hcell
  obtain ⟨hwidth_length, hheight_length⟩ := Bool.and_eq_true_iff.1 (hsizes d hd)
  obtain ⟨hhorizontal, hvertical⟩ := Bool.and_eq_true_iff.1 hmargin
  constructor
  · obtain ⟨w, hw, hw_le⟩ := hwidths r hr
    obtain ⟨b, hb, hbw⟩ := (hmeasured r hr).exists_isReal_width (hlength r hr) hw _ hcell
    obtain ⟨s, hs, hs_nonneg, hsb⟩ := (isMagnitude_cell hwidth_length hhorizontal).2 b hb
    exact ⟨s, hs, hs_nonneg, hsb.trans (hbw.trans hw_le)⟩
  · obtain ⟨k, hk, hk_le⟩ := exists_isReal_height hmeasured (isReal_zero.isMagnitude le_rfl)
      htotal r hr
    obtain ⟨b, hb, hbk⟩ := exists_isReal_of_largest (hmeasured r hr).height hk _
      (List.mem_map_of_mem hcell)
    obtain ⟨s, hs, hs_nonneg, hsb⟩ := (isMagnitude_cell hheight_length hvertical).2 b hb
    exact ⟨s, hs, hs_nonneg, hsb.trans (hbk.trans (hk_le.trans htotal_le))⟩
  · obtain ⟨hx, hy⟩ := isWithin_of_mem_stackCenters hmeasured hlength hwidths isReal_zero htop
      htotal le_rfl (by rwa [neg_zero]) htop_le p hp
    exact ⟨p, rfl, hx, hy.mono htotal_le⟩

end

end ContextDiagram.Layout
