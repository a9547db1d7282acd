import ContextDiagram.Proofs.Layout.Separation

namespace ContextDiagram.Layout

open Plane

variable {K : Type} [Field K] [LinearOrder K]

/-- Whether cells may stand in one row: there are no more than `capacity` of them, and two or more
of them leave room for as many cells of the width of any of them. -/
structure MayShareRow (capacity : Nat) (limit : K) (cells : List (Cell K)) : Prop where
  length_le : cells.length ≤ capacity
  width_le : 2 ≤ cells.length → ∀ cell ∈ cells, (cells.length : K) * cell.size.width ≤ limit

/-- Whether cells are divided into rows, in their order, without a gap and without repetition. -/
structure IsDivision (capacity : Nat) (limit : K) (cells : List (Cell K))
    (rows : List (List (Cell K))) : Prop where
  flatten_eq : rows.flatten = cells
  ne_nil : ∀ row ∈ rows, row ≠ []
  mayShareRow : ∀ row ∈ rows, MayShareRow capacity limit row

/-- Why a row ends where the next one begins: it is full, or the first cell of the next one would
make it too wide. -/
def Row.EndsBefore (capacity : Nat) (limit : K) (r next : Row K) : Prop :=
  r.length = capacity ∨ limit < (r.length + 1) * max r.pitch next.first.size.width

namespace Row

theorem isGreatest_pitch {r : Row K} (h : ∀ cell ∈ r.cells, 0 ≤ cell.size.width) :
    IsGreatest {width | width ∈ r.cells.map (·.size.width)} r.pitch := by
  apply Scalar.isGreatest_largest
  · exact List.cons_ne_nil _ _
  · exact List.forall_mem_map.2 h

theorem isGreatest_height {r : Row K} (h : ∀ cell ∈ r.cells, 0 ≤ cell.size.height) :
    IsGreatest {height | height ∈ r.cells.map (·.size.height)} r.height := by
  apply Scalar.isGreatest_largest
  · exact List.cons_ne_nil _ _
  · exact List.forall_mem_map.2 h

theorem pitch_push (r : Row K) (cell : Cell K) :
    (r.push cell).pitch = max r.pitch cell.size.width := by
  rw [pitch, cells_push, List.map_append, Scalar.largest, List.foldl_append]
  rfl

theorem width_push (r : Row K) (cell : Cell K) :
    (r.push cell).width = (r.length + 1) * max r.pitch cell.size.width := by
  rw [width_eq, length_push, pitch_push, Nat.cast_succ]

theorem admits_eq_true_iff {capacity : Nat} {limit : K} {r : Row K} {cell : Cell K} :
    r.admits capacity limit cell = true ↔
      r.length < capacity ∧ (r.push cell).width ≤ limit := by
  rw [admits, Bool.and_eq_true, decide_eq_true_iff, Bool.not_eq_true', Scalar.lt_eq_false_iff]

theorem endsBefore_of_not_admits {capacity : Nat} {limit : K} {r next : Row K}
    (hlength : r.length ≤ capacity) (h : ¬r.admits capacity limit next.first = true) :
    r.EndsBefore capacity limit next := by
  rw [admits_eq_true_iff, not_and_or, not_lt, not_le, width_push] at h
  rcases h with hfull | hwide
  · exact .inl (le_antisymm hlength hfull)
  · exact .inr hwide

/-- A row that is filled keeps its first cell, and the cells it leaves over are split anew. -/
theorem exists_fill_eq (capacity : Nat) (limit : K) (r : Row K) (cells : List (Cell K)) :
    ∃ r' rest, r.fill capacity limit cells = r' :: splitRows capacity limit rest ∧
      r'.first = r.first ∧ rest <:+ cells := by
  induction cells generalizing r with
  | nil => exact ⟨r, [], rfl, rfl, List.nil_suffix⟩
  | cons cell cells ih =>
    rw [fill]
    split
    · obtain ⟨r', rest, hfill, hfirst, hrest⟩ := ih (r.push cell)
      exact ⟨r', rest, hfill, hfirst, hrest.trans (List.suffix_cons cell cells)⟩
    · exact ⟨r, cell :: cells, rfl, rfl, List.suffix_rfl⟩

theorem isChain_fill {capacity : Nat} (hcapacity : 0 < capacity) (limit : K) {r : Row K}
    (hlength : r.length ≤ capacity) (cells : List (Cell K)) :
    (r.fill capacity limit cells).IsChain (EndsBefore capacity limit) := by
  induction cells generalizing r with
  | nil => exact .singleton r
  | cons cell cells ih =>
    rw [fill]
    split
    · next h =>
      apply ih
      rw [length_push]
      exact (admits_eq_true_iff.1 h).1
    · next h =>
      have hnext := ih (r := single cell) hcapacity
      obtain ⟨r', rest, hfill, hfirst, -⟩ := exists_fill_eq capacity limit (single cell) cells
      rw [hfill] at hnext ⊢
      apply List.IsChain.cons_cons _ hnext
      apply endsBefore_of_not_admits hlength
      rw [hfirst]
      exact h

end Row

section

variable {capacity : Nat} {limit : K} {cells cells' : List (Cell K)}

theorem mayShareRow_singleton (hcapacity : 0 < capacity) (limit : K) (cell : Cell K) :
    MayShareRow capacity limit [cell] where
  length_le := hcapacity
  width_le h := by
    rw [List.length_singleton] at h
    omega

variable [IsStrictOrderedRing K]

theorem MayShareRow.sublist (h : MayShareRow capacity limit cells)
    (hwidth : ∀ cell ∈ cells, 0 ≤ cell.size.width) (hs : cells'.Sublist cells) :
    MayShareRow capacity limit cells' where
  length_le := hs.length_le.trans h.length_le
  width_le := by
    intro htwo cell hcell
    have hmem := hs.subset hcell
    have hlength : (cells'.length : K) ≤ cells.length := Nat.cast_le.2 hs.length_le
    calc
      (cells'.length : K) * cell.size.width ≤ cells.length * cell.size.width :=
        mul_le_mul_of_nonneg_right hlength (hwidth cell hmem)
      _ ≤ limit := h.width_le (htwo.trans hs.length_le) cell hmem

theorem Row.width_le_iff {r : Row K} (h : ∀ cell ∈ r.cells, 0 ≤ cell.size.width) :
    r.width ≤ limit ↔ ∀ cell ∈ r.cells, (r.length : K) * cell.size.width ≤ limit := by
  rw [width_eq]
  constructor
  · intro hwidth cell hcell
    have hle := mul_le_mul_of_nonneg_left (width_le_pitch hcell) (Nat.cast_nonneg (α := K) r.length)
    exact hle.trans hwidth
  · intro hcells
    obtain ⟨cell, hcell, hpitch⟩ := List.mem_map.1 (isGreatest_pitch h).1
    rw [← hpitch]
    exact hcells cell hcell

theorem Row.admits_iff_mayShareRow {r : Row K} {cell : Cell K}
    (h : ∀ c ∈ r.cells ++ [cell], 0 ≤ c.size.width) :
    r.admits capacity limit cell = true ↔ MayShareRow capacity limit (r.cells ++ [cell]) := by
  have hlength : (r.cells ++ [cell]).length = r.length + 1 := List.length_append
  rw [admits_eq_true_iff, width_le_iff (r := r.push cell) h, length_push, cells_push]
  constructor
  · intro hadmits
    obtain ⟨hroom, hcells⟩ := hadmits
    refine ⟨hlength.trans_le hroom, ?_⟩
    intro _ c hc
    rw [hlength]
    exact hcells c hc
  · intro hshare
    have htwo : 2 ≤ (r.cells ++ [cell]).length := by
      rw [hlength, length]
      omega
    refine ⟨hlength.symm.trans_le hshare.length_le, ?_⟩
    intro c hc
    rw [← hlength]
    exact hshare.width_le htwo c hc

theorem Row.mayShareRow_of_mem_fill {r : Row K} (hcapacity : 0 < capacity)
    (h : MayShareRow capacity limit r.cells)
    (hwidth : ∀ cell ∈ r.cells ++ cells, 0 ≤ cell.size.width) :
    ∀ r' ∈ r.fill capacity limit cells, MayShareRow capacity limit r'.cells := by
  induction cells generalizing r with
  | nil => exact List.forall_mem_singleton.2 h
  | cons cell cells ih =>
    have hsplit : r.cells ++ cell :: cells = (r.cells ++ [cell]) ++ cells := List.append_cons _ _ _
    rw [hsplit] at hwidth
    obtain ⟨hnow, hlater⟩ := List.forall_mem_append.1 hwidth
    rw [fill]
    split
    · next hadmits =>
      apply ih
      · exact (admits_iff_mayShareRow hnow).1 hadmits
      · exact hwidth
    · have hsingle := mayShareRow_singleton hcapacity limit cell
      refine List.forall_mem_cons.2 ⟨h, ih hsingle ?_⟩
      exact List.forall_mem_append.2 ⟨(List.forall_mem_append.1 hnow).2, hlater⟩

theorem Row.fill_append {r : Row K} (h : MayShareRow capacity limit (r.cells ++ cells'))
    (hwidth : ∀ cell ∈ r.cells ++ cells', 0 ≤ cell.size.width) (cells : List (Cell K)) :
    r.fill capacity limit (cells' ++ cells) =
      Row.fill capacity limit ⟨r.first, r.others ++ cells'⟩ cells := by
  induction cells' generalizing r with
  | nil => rw [List.nil_append, List.append_nil]
  | cons cell cells' ih =>
    have hsplit : r.cells ++ cell :: cells' = (r.cells ++ [cell]) ++ cells' :=
      List.append_cons _ _ _
    rw [hsplit] at h hwidth
    have hnow := (List.forall_mem_append.1 hwidth).1
    have hadmits : r.admits capacity limit cell = true :=
      (admits_iff_mayShareRow hnow).2 (h.sublist hwidth (List.sublist_append_left _ _))
    rw [List.cons_append, fill, if_pos hadmits, ih (r := r.push cell) h hwidth, push,
      List.append_assoc]
    rfl

/-- The first row takes at least the cells of any row that begins with it. -/
theorem exists_splitRows_append {row : List (Cell K)} (hne : row ≠ [])
    (h : MayShareRow capacity limit row) (hwidth : ∀ cell ∈ row, 0 ≤ cell.size.width)
    (cells : List (Cell K)) :
    ∃ r rest, splitRows capacity limit (row ++ cells) = r :: splitRows capacity limit rest ∧
      rest <:+ cells := by
  cases row with
  | nil => exact absurd rfl hne
  | cons cell row =>
    have hfill := Row.fill_append (r := .single cell) h hwidth cells
    obtain ⟨r, rest, hr, -, hrest⟩ := Row.exists_fill_eq capacity limit ⟨cell, row⟩ cells
    exact ⟨r, rest, hfill.trans hr, hrest⟩

theorem length_splitRows_le {rows : List (List (Cell K))}
    (h : ∀ row ∈ rows, MayShareRow capacity limit row)
    (hwidth : ∀ cell ∈ rows.flatten, 0 ≤ cell.size.width) (hcells : cells <:+ rows.flatten) :
    (splitRows capacity limit cells).length ≤ rows.length := by
  induction rows generalizing cells with
  | nil =>
    obtain rfl := List.suffix_nil.1 hcells
    exact Nat.le_refl 0
  | cons row rows ih =>
    rw [List.flatten_cons] at hwidth hcells
    obtain ⟨hrow, hrows⟩ := List.forall_mem_cons.1 h
    obtain ⟨hnow, hlater⟩ := List.forall_mem_append.1 hwidth
    have hle {rest : List (Cell K)} (hrest : rest <:+ rows.flatten) :
        (splitRows capacity limit rest).length ≤ rows.length := ih hrows hlater hrest
    obtain ⟨before, heq⟩ := hcells
    rcases List.append_eq_append_iff.1 heq with ⟨part, hpart, rfl⟩ | ⟨part, -, hpart⟩
    · -- The cells begin inside the first row of the division, so their own first row covers it.
      by_cases hne : part = []
      · rw [hne, List.nil_append]
        exact (hle List.suffix_rfl).trans (Nat.le_succ _)
      · have hsub : part.Sublist row := by
          rw [hpart]
          exact List.sublist_append_right before part
        have hshare := hrow.sublist hnow hsub
        obtain ⟨r, rest, hsplit, hrest⟩ := exists_splitRows_append hne hshare
          (fun cell hcell => hnow cell (hsub.subset hcell)) rows.flatten
        rw [hsplit, List.length_cons, List.length_cons]
        exact Nat.succ_le_succ (hle hrest)
    · exact (hle ⟨part, hpart.symm⟩).trans (Nat.le_succ _)

theorem mayShareRow_of_mem_splitRows (hcapacity : 0 < capacity)
    (hwidth : ∀ cell ∈ cells, 0 ≤ cell.size.width) :
    ∀ r ∈ splitRows capacity limit cells, MayShareRow capacity limit r.cells := by
  cases cells with
  | nil => exact List.forall_mem_nil _
  | cons cell cells =>
    apply Row.mayShareRow_of_mem_fill hcapacity
    · exact mayShareRow_singleton hcapacity limit cell
    · exact hwidth

theorem isDivision_splitRows (hcapacity : 0 < capacity)
    (hwidth : ∀ cell ∈ cells, 0 ≤ cell.size.width) :
    IsDivision capacity limit cells ((splitRows capacity limit cells).map Row.cells) where
  flatten_eq := List.flatMap_def.symm.trans (flatMap_cells_splitRows capacity limit cells)
  ne_nil := List.forall_mem_map.2 fun _ _ => List.cons_ne_nil _ _
  mayShareRow := List.forall_mem_map.2 (mayShareRow_of_mem_splitRows hcapacity hwidth)

end

theorem mem_of_mem_splitRows {capacity : Nat} {limit : K} {cells : List (Cell K)} {r : Row K}
    (h : r ∈ splitRows capacity limit cells) {cell : Cell K} (hcell : cell ∈ r.cells) :
    cell ∈ cells := by
  rw [← flatMap_cells_splitRows capacity limit cells]
  exact List.mem_flatMap.2 ⟨r, h, hcell⟩

theorem isChain_splitRows {capacity : Nat} (hcapacity : 0 < capacity) (limit : K)
    (cells : List (Cell K)) :
    (splitRows capacity limit cells).IsChain (Row.EndsBefore capacity limit) := by
  cases cells with
  | nil => exact .nil
  | cons cell cells => exact Row.isChain_fill hcapacity limit (r := .single cell) hcapacity cells

/-- The rows of some cells are a division of them, each as high and with as much room for a cell as
the greatest of its cells asks for. No row ends without a reason, and no division of the cells has
fewer rows. -/
theorem splitRows_fewest [IsStrictOrderedRing K] {capacity : Nat} (hcapacity : 0 < capacity)
    (limit : K) {cells : List (Cell K)}
    (hcells : ∀ cell ∈ cells, 0 ≤ cell.size.width ∧ 0 ≤ cell.size.height) :
    IsDivision capacity limit cells ((splitRows capacity limit cells).map Row.cells) ∧
      (∀ r ∈ splitRows capacity limit cells,
        IsGreatest {width | width ∈ r.cells.map (·.size.width)} r.pitch ∧
          IsGreatest {height | height ∈ r.cells.map (·.size.height)} r.height) ∧
      (splitRows capacity limit cells).IsChain (Row.EndsBefore capacity limit) ∧
      ∀ rows, IsDivision capacity limit cells rows →
        (splitRows capacity limit cells).length ≤ rows.length := by
  have hwidth : ∀ cell ∈ cells, 0 ≤ cell.size.width := fun cell h => (hcells cell h).1
  have hheight : ∀ cell ∈ cells, 0 ≤ cell.size.height := fun cell h => (hcells cell h).2
  refine ⟨isDivision_splitRows hcapacity hwidth, ?_, isChain_splitRows hcapacity limit cells, ?_⟩
  · intro r hr
    have hpitch := Row.isGreatest_pitch fun cell h => hwidth cell (mem_of_mem_splitRows hr h)
    have hhigh := Row.isGreatest_height fun cell h => hheight cell (mem_of_mem_splitRows hr h)
    exact ⟨hpitch, hhigh⟩
  · intro rows hrows
    have hflatten := hrows.flatten_eq
    apply length_splitRows_le hrows.mayShareRow
    · rw [hflatten]
      exact hwidth
    · rw [hflatten]

/-- The first row is full, and the third cell is too wide for a fourth beside it, although the first
two are narrow: there is no division into two rows. -/
theorem splitRows_fewest_four : ∃ cells : List (Cell ℚ),
    cells.map (·.size.width) = [1, 1, 5, 3] ∧
      (∀ cell ∈ cells, 0 ≤ cell.size.width ∧ 0 ≤ cell.size.height) ∧
      (splitRows 2 9 cells).map Row.length = [2, 1, 1] ∧
      ∀ rows, IsDivision 2 9 cells rows → 3 ≤ rows.length := by
  let cells : List (Cell ℚ) :=
    [⟨"A", ⟨1, 2⟩⟩, ⟨"B", ⟨1, 4⟩⟩, ⟨"C", ⟨5, 0⟩⟩, ⟨"D", ⟨3, 1⟩⟩]
  have hcells : ∀ cell ∈ cells, 0 ≤ cell.size.width ∧ 0 ≤ cell.size.height := by
    decide +kernel
  have hlengths : (splitRows 2 9 cells).map Row.length = [2, 1, 1] := by
    decide +kernel
  have hrows : (splitRows 2 9 cells).length = 3 := by
    rw [← List.length_map Row.length, hlengths]
    rfl
  obtain ⟨-, -, -, hfewest⟩ := splitRows_fewest Nat.two_pos 9 hcells
  rw [hrows] at hfewest
  exact ⟨cells, rfl, hcells, hlengths, hfewest⟩

end ContextDiagram.Layout
