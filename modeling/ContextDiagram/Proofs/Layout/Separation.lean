import ContextDiagram.Proofs.Plane.Region
import ContextDiagram.Proofs.Layout.Placement

namespace ContextDiagram.Layout

open Plane

variable {K : Type} [Field K] [LinearOrder K]

/-- The part of the canvas that a placed context takes, its margin included. -/
def SizedContext.area? (margin : Spacing K) (c : SizedContext K) : Option (Rectangle K) :=
  c.center.map fun center => .around center (c.size.grow margin)

def areas (centers : List (Point K)) (cells : List (Cell K)) : List (Rectangle K) :=
  centers.zipWith (fun center cell => .around center cell.size) cells

theorem map_area?_zipWith (margin : Spacing K) {contexts : List (SizedContext K)}
    {centers : List (Point K)} (h : centers.length = contexts.length) :
    (contexts.zipWith SizedContext.placeAt centers).map (SizedContext.area? margin) =
      (areas centers (contexts.map (·.cell margin))).map some := by
  induction contexts generalizing centers with
  | nil =>
    obtain rfl := List.length_eq_zero_iff.1 h
    rfl
  | cons c contexts ih =>
    cases centers with
    | nil => cases h
    | cons center centers =>
      have htail := ih (Nat.succ.inj h)
      rw [List.zipWith_cons_cons, List.map_cons, htail]
      rfl

namespace Row

def edge (r : Row K) (slot : Nat) : K :=
  (slot - Scalar.half (r.length : K)) * r.pitch

theorem width_eq (r : Row K) : r.width = r.length * r.pitch := rfl

theorem pitch_nonneg (r : Row K) : 0 ≤ r.pitch :=
  Scalar.largest_nonneg _

theorem height_nonneg (r : Row K) : 0 ≤ r.height :=
  Scalar.largest_nonneg _

theorem width_le_pitch {r : Row K} {cell : Cell K} (h : cell ∈ r.cells) :
    cell.size.width ≤ r.pitch :=
  Scalar.le_largest (List.mem_map_of_mem h)

theorem height_le_height {r : Row K} {cell : Cell K} (h : cell ∈ r.cells) :
    cell.size.height ≤ r.height :=
  Scalar.le_largest (List.mem_map_of_mem h)

theorem slotX_eq_mul (r : Row K) (slot : Nat) :
    r.slotX slot = ((slot : K) - (r.others.length : K) / 2) * r.pitch := by
  rw [slotX, Scalar.half_eq]
  rfl

theorem eq_of_getElem?_centers {r : Row K} {y : K} {slot : Nat} {center : Point K}
    (h : (r.centers y)[slot]? = some center) : center = ⟨r.slotX slot, y⟩ := by
  rw [centers, List.getElem?_map] at h
  obtain ⟨slot', hslot, rfl⟩ := Option.map_eq_some_iff.1 h
  obtain ⟨hlt, hget⟩ := List.getElem?_eq_some_iff.1 hslot
  rw [List.getElem_range] at hget
  rw [hget]

theorem length_areas (r : Row K) (y : K) : (areas (r.centers y) r.cells).length = r.length := by
  rw [areas, List.length_zipWith, r.length_centers, Nat.min_self, r.length_cells]

end Row

theorem areas_stackCenters_cons (top : K) (r : Row K) (rows : List (Row K)) :
    areas (stackCenters top (r :: rows)) ((r :: rows).flatMap Row.cells) =
      areas (r.centers (top - r.height / 2)) r.cells ++
        areas (stackCenters (top - r.height) rows) (rows.flatMap Row.cells) := by
  rw [stackCenters, List.flatMap_cons, areas, List.zipWith_append (r.length_centers _),
    Scalar.half_eq]
  rfl

theorem of_checkFits {rows : List (Row K)} {canvas : Size K} (h : checkFits rows canvas = .ok ()) :
    (∀ r ∈ rows, r.width ≤ canvas.width) ∧ (rows.map Row.height).sum ≤ canvas.height := by
  rw [checkFits] at h
  split at h
  · cases h
  · next hrows =>
    split at h
    · cases h
    · next hheight =>
      have hnot := Bool.eq_false_iff.2 hheight
      rw [totalHeight, Scalar.sum_eq, Scalar.lt_eq_false_iff] at hnot
      refine ⟨fun r hr => ?_, hnot⟩
      have hwidth := List.find?_eq_none.1 hrows r hr
      exact Scalar.lt_eq_false_iff.1 (Bool.eq_false_iff.2 hwidth)

variable [IsStrictOrderedRing K]

namespace Row

theorem edge_zero (r : Row K) : r.edge 0 = -(r.width / 2) := by
  rw [edge, Scalar.half_eq, width_eq, Nat.cast_zero]
  ring

theorem edge_length (r : Row K) : r.edge r.length = r.width / 2 := by
  rw [edge, Scalar.half_eq, width_eq]
  ring

theorem edge_mono (r : Row K) {i j : Nat} (h : i ≤ j) : r.edge i ≤ r.edge j := by
  have hcast : (i : K) ≤ j := Nat.cast_le.2 h
  apply mul_le_mul_of_nonneg_right _ r.pitch_nonneg
  linarith

theorem slotX_eq (r : Row K) (slot : Nat) :
    r.slotX slot = r.edge slot + r.pitch / 2 ∧ r.slotX slot = r.edge (slot + 1) - r.pitch / 2 := by
  have hlength : (r.length : K) = r.others.length + 1 := Nat.cast_succ _
  rw [slotX_eq_mul, edge, edge, Scalar.half_eq, hlength, Nat.cast_succ]
  constructor <;> ring

/-- A cell stays in its slot, because no cell of its row is wider or higher than the slot. -/
theorem liesIn_slot {r : Row K} {y : K} {slot : Nat} {area : Rectangle K}
    (h : (areas (r.centers y) r.cells)[slot]? = some area) :
    area.LiesIn (r.edge slot) (r.edge (slot + 1)) (y - r.height / 2) (y + r.height / 2) := by
  obtain ⟨center, cell, hcenter, hcell, rfl⟩ := List.getElem?_zipWith_eq_some.1 h
  obtain rfl := eq_of_getElem?_centers hcenter
  have hwidth := width_le_pitch (List.mem_of_getElem? hcell)
  have hheight := height_le_height (List.mem_of_getElem? hcell)
  obtain ⟨hleft, hright⟩ := r.slotX_eq slot
  apply Rectangle.liesIn_around
  · change r.edge slot ≤ r.slotX slot - cell.size.width / 2
    linarith
  · change r.slotX slot + cell.size.width / 2 ≤ r.edge (slot + 1)
    linarith
  · change y - r.height / 2 ≤ y - cell.size.height / 2
    linarith
  · change y + cell.size.height / 2 ≤ y + r.height / 2
    linarith

theorem liesIn_of_mem_areas {r : Row K} {y : K} {area : Rectangle K}
    (h : area ∈ areas (r.centers y) r.cells) :
    area.LiesIn (-(r.width / 2)) (r.width / 2) (y - r.height / 2) (y + r.height / 2) := by
  obtain ⟨slot, hslot⟩ := List.mem_iff_getElem?.1 h
  obtain ⟨hlt, -⟩ := List.getElem?_eq_some_iff.1 hslot
  rw [r.length_areas] at hlt
  apply (liesIn_slot hslot).mono
  · rw [← r.edge_zero]
    exact r.edge_mono (Nat.zero_le slot)
  · rw [← r.edge_length]
    exact r.edge_mono hlt
  · exact le_rfl
  · exact le_rfl

/-- The cells of a row are apart: the slot of one ends before the slot of a later one begins. -/
theorem pairwise_areas (r : Row K) (y : K) :
    (areas (r.centers y) r.cells).Pairwise fun a b => Disjoint a.interior b.interior := by
  apply List.pairwise_iff_getElem.2
  intro i j hi hj hij
  have ha := liesIn_slot (List.getElem?_eq_getElem hi)
  have hb := liesIn_slot (List.getElem?_eq_getElem hj)
  exact ha.disjoint_of_right_le hb (r.edge_mono hij)

end Row

section

variable {rows : List (Row K)} {width : K}

theorem liesIn_of_mem_stack (hwidth : ∀ r ∈ rows, r.width ≤ width) {top : K} {area : Rectangle K}
    (h : area ∈ areas (stackCenters top rows) (rows.flatMap Row.cells)) :
    area.LiesIn (-(width / 2)) (width / 2) (top - (rows.map Row.height).sum) top := by
  induction rows generalizing top with
  | nil => cases h
  | cons r rows ih =>
    obtain ⟨hr, hrows⟩ := List.forall_mem_cons.1 hwidth
    have hheight := r.height_nonneg
    have htotal : 0 ≤ (rows.map Row.height).sum := by
      apply List.sum_nonneg
      intro height hmem
      obtain ⟨r', -, rfl⟩ := List.mem_map.1 hmem
      exact r'.height_nonneg
    rw [areas_stackCenters_cons] at h
    rw [List.map_cons, List.sum_cons]
    rcases List.mem_append.1 h with h | h
    · apply (Row.liesIn_of_mem_areas h).mono <;> linarith
    · apply (ih hrows h).mono <;> linarith

/-- Cells of different rows are apart, because a row ends above the top of the next. -/
theorem pairwise_stack (hwidth : ∀ r ∈ rows, r.width ≤ width) (top : K) :
    (areas (stackCenters top rows) (rows.flatMap Row.cells)).Pairwise fun a b =>
      Disjoint a.interior b.interior := by
  induction rows generalizing top with
  | nil => exact .nil
  | cons r rows ih =>
    obtain ⟨-, hrows⟩ := List.forall_mem_cons.1 hwidth
    rw [areas_stackCenters_cons]
    refine List.pairwise_append.2 ⟨r.pairwise_areas _, ih hrows _, ?_⟩
    intro a ha b hb
    apply (Row.liesIn_of_mem_areas ha).disjoint_of_top_le (liesIn_of_mem_stack hrows hb)
    linarith

end

/-- Contexts that can be distributed take parts of the canvas that do not overlap. -/
theorem areas_of_distribute {contexts placed : List (SizedContext K)} {canvas : Size K}
    {margin : Spacing K} (h : distribute contexts canvas margin = .ok placed) :
    ArePlaced contexts placed ∧
      ∃ taken : List (Rectangle K), placed.map (SizedContext.area? margin) = taken.map some ∧
        (∀ area ∈ taken, area.region ⊆ (Rectangle.centered canvas).region) ∧
        taken.Pairwise fun a b => Disjoint a.interior b.interior := by
  refine ⟨arePlaced_of_distribute h, ?_⟩
  obtain ⟨-, hfits, rfl⟩ := distribute_eq_ok_iff.1 h
  obtain ⟨hwidth, hheight⟩ := of_checkFits hfits
  have hcells : (rowsOf contexts canvas margin).flatMap Row.cells =
      contexts.map (·.cell margin) := flatMap_cells_splitRows _ _ _
  refine ⟨_, map_area?_zipWith margin (length_centersOf_rowsOf contexts canvas margin), ?_⟩
  rw [← hcells, centersOf, totalHeight, Scalar.sum_eq, Scalar.half_eq]
  constructor
  · intro area harea
    apply Rectangle.LiesIn.region_subset_centered
    apply (liesIn_of_mem_stack hwidth harea).mono <;> linarith
  · exact pairwise_stack hwidth _

theorem areas_of_distribute_three : ∃ (contexts placed : List (SizedContext ℚ))
    (taken : List (Rectangle ℚ)),
    contexts.map SizedContext.size = [⟨4, 2⟩, ⟨2, 5⟩, ⟨3, 1⟩] ∧
      distribute contexts ⟨12, 10⟩ ⟨1, 1⟩ = .ok placed ∧
      placed.map (SizedContext.area? ⟨1, 1⟩) = taken.map some ∧
      (∀ area ∈ taken, area.region ⊆ (Rectangle.centered ⟨12, 10⟩).region) ∧
      taken.Pairwise fun a b => Disjoint a.interior b.interior := by
  have hok : (distribute ([⟨"A", "A", ⟨4, 2⟩, ⟨0, 0⟩, none⟩, ⟨"B", "B", ⟨2, 5⟩, ⟨0, 0⟩, none⟩,
      ⟨"C", "C", ⟨3, 1⟩, ⟨0, 0⟩, none⟩] : List (SizedContext ℚ)) ⟨12, 10⟩ ⟨1, 1⟩).isOk = true := by
    decide +kernel
  obtain ⟨placed, hplaced⟩ := Except.exists_eq_ok_of_isOk hok
  obtain ⟨-, taken, htaken, hinside, hapart⟩ := areas_of_distribute hplaced
  exact ⟨_, placed, taken, rfl, hplaced, htaken, hinside, hapart⟩

end ContextDiagram.Layout
