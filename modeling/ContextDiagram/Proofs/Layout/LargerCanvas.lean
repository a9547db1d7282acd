import ContextDiagram.Proofs.Layout.Rejection

namespace ContextDiagram.Layout

open Plane

variable {K : Type} [Field K] [LinearOrder K]

theorem Row.fill_append_cases {α : Type} [Scalar α] (capacity : Nat) (limit : α) (r : Row α)
    (next cells : List (Cell α)) :
    r.fill capacity limit (next ++ cells) =
        Row.fill capacity limit ⟨r.first, r.others ++ next⟩ cells ∨
      ∃ taken cell rest, next = taken ++ cell :: rest ∧
        r.fill capacity limit (next ++ cells) =
          ⟨r.first, r.others ++ taken⟩ ::
            splitRows capacity limit ((cell :: rest) ++ cells) := by
  induction next generalizing r with
  | nil =>
    rw [List.nil_append, List.append_nil]
    exact .inl rfl
  | cons cell next ih =>
    rw [List.cons_append, fill]
    split
    · have hothers (taken : List (Cell α)) :
          (r.push cell).others ++ taken = r.others ++ cell :: taken := by
        rw [push, List.append_assoc]
        rfl
      rcases ih (r.push cell) with hall | ⟨taken, cell', rest, rfl, hfill⟩
      · rw [hothers] at hall
        exact .inl hall
      · rw [hothers] at hfill
        exact .inr ⟨cell :: taken, cell', rest, rfl, hfill⟩
    · refine .inr ⟨[], cell, next, rfl, ?_⟩
      rw [List.append_nil]
      rfl

section

variable {capacity : Nat} {limit limit' : K} {cells : List (Cell K)}

theorem MayShareRow.mono (h : MayShareRow capacity limit cells) (hlimit : limit ≤ limit') :
    MayShareRow capacity limit' cells where
  length_le := h.length_le
  width_le htwo cell hcell := (h.width_le htwo cell hcell).trans hlimit

namespace Row

theorem height_le_iff {r : Row K} {bound : K} :
    r.height ≤ bound ↔ 0 ≤ bound ∧ ∀ cell ∈ r.cells, cell.size.height ≤ bound := by
  rw [height, Scalar.largest_le_iff, List.forall_mem_map]

variable [IsStrictOrderedRing K]

theorem height_append_le (r s : Row K) (h : ∀ cell ∈ cells, cell ∈ s.cells) :
    height ⟨r.first, r.others ++ cells⟩ ≤ r.height + s.height := by
  apply height_le_iff.2
  refine ⟨add_nonneg r.height_nonneg s.height_nonneg, ?_⟩
  intro cell hcell
  have hmem : cell ∈ r.cells ++ cells := hcell
  rcases List.mem_append.1 hmem with hr | hs
  · exact (height_le_height hr).trans (le_add_of_nonneg_right s.height_nonneg)
  · exact (height_le_height (h cell hs)).trans (le_add_of_nonneg_left r.height_nonneg)

/-- Of the rows that are made of other rows at most two lie in one of these: one that ends in it,
and one that begins in it and takes all that is left. -/
theorem sum_height_fill_le {rows : List (Row K)}
    (h : ∀ s ∈ rows, MayShareRow capacity limit s.cells)
    (hwidth : ∀ s ∈ rows, ∀ cell ∈ s.cells, 0 ≤ cell.size.width) (r : Row K) :
    ((r.fill capacity limit (rows.flatMap Row.cells)).map height).sum ≤
      r.height + 2 * (rows.map height).sum := by
  induction rows generalizing r with
  | nil =>
    rw [List.flatMap_nil, fill]
    simp only [List.map_cons, List.map_nil, List.sum_cons, List.sum_nil, mul_zero]
    exact le_rfl
  | cons s rows ih =>
    obtain ⟨hs, hrows⟩ := List.forall_mem_cons.1 h
    obtain ⟨hnow, hlater⟩ := List.forall_mem_cons.1 hwidth
    have hih (r' : Row K) := ih hrows hlater r'
    rw [List.flatMap_cons, List.map_cons, List.sum_cons]
    -- If the row ends inside `s`, the rest of `s` begins the next row and fits there as a whole, so
    -- the height of `s` is counted twice: once for the row that ends and once for the one begun.
    rcases fill_append_cases capacity limit r s.cells (rows.flatMap Row.cells) with
      hall | ⟨taken, cell, rest, hsplit, hfill⟩
    · have hgrown := r.height_append_le s fun cell hcell => hcell
      have hrest := hih ⟨r.first, r.others ++ s.cells⟩
      have hnonneg := s.height_nonneg
      rw [hall]
      linarith
    · have hsub : (cell :: rest).Sublist s.cells := by
        rw [hsplit]
        exact List.sublist_append_right taken _
      have htaken := r.height_append_le s fun c (hc : c ∈ taken) => by
        rw [hsplit]
        exact List.mem_append_left _ hc
      have hbegun : height ⟨cell, rest⟩ ≤ s.height :=
        height_le_iff.2 ⟨s.height_nonneg, fun c hc => height_le_height (hsub.subset hc)⟩
      have hrest := hih ⟨cell, rest⟩
      have hsplitRows : splitRows capacity limit ((cell :: rest) ++ rows.flatMap Row.cells) =
          fill capacity limit ⟨cell, rest⟩ (rows.flatMap Row.cells) :=
        fill_append (r := .single cell) (hs.sublist hnow hsub)
          (fun c hc => hnow c (hsub.subset hc)) _
      rw [hfill, hsplitRows, List.map_cons, List.sum_cons]
      linarith

end Row

variable [IsStrictOrderedRing K]

theorem sum_height_splitRows_le {rows : List (Row K)}
    (h : ∀ r ∈ rows, MayShareRow capacity limit r.cells)
    (hwidth : ∀ r ∈ rows, ∀ cell ∈ r.cells, 0 ≤ cell.size.width) :
    ((splitRows capacity limit (rows.flatMap Row.cells)).map Row.height).sum ≤
      2 * (rows.map Row.height).sum := by
  cases rows with
  | nil => exact (mul_zero 2).ge
  | cons r rows =>
    obtain ⟨hr, hrows⟩ := List.forall_mem_cons.1 h
    obtain ⟨hnow, hlater⟩ := List.forall_mem_cons.1 hwidth
    have hfill : splitRows capacity limit (r.cells ++ rows.flatMap Row.cells) =
        Row.fill capacity limit r (rows.flatMap Row.cells) :=
      Row.fill_append (r := .single r.first) hr hnow _
    have hle := Row.sum_height_fill_le hrows hlater r
    have hnonneg := r.height_nonneg
    rw [List.flatMap_cons, hfill, List.map_cons, List.sum_cons]
    linarith

end

section

variable {contexts placed : List (SizedContext K)} {canvas canvas' : Size K} {margin : Spacing K}

theorem IsAdmissible.mono (h : IsAdmissible contexts canvas margin)
    (hwidth : canvas.width ≤ canvas'.width) (hheight : canvas.height ≤ canvas'.height) :
    IsAdmissible contexts canvas' margin where
  canvas_pos := ⟨h.canvas_pos.1.trans_le hwidth, h.canvas_pos.2.trans_le hheight⟩
  margin_nonneg := h.margin_nonneg
  size_nonneg := h.size_nonneg

theorem rowsOf_of_width_eq (h : canvas'.width = canvas.width) :
    rowsOf contexts canvas' margin = rowsOf contexts canvas margin := by
  rw [rowsOf, rowsOf, h]

theorem sum_height_rowsOf_eq
    (h : ∀ cell ∈ contexts.map (·.cell margin), 0 ≤ cell.size.height) {height : K}
    (hheight : ∀ c ∈ contexts, (c.cell margin).size.height = height) :
    ((rowsOf contexts canvas margin).map Row.height).sum =
      (rowsOf contexts canvas margin).length * height := by
  have hrows : ∀ x ∈ (rowsOf contexts canvas margin).map Row.height, x = height := by
    intro x hx
    obtain ⟨r, hr, rfl⟩ := List.mem_map.1 hx
    have hcells (cell : Cell K) (hcell : cell ∈ r.cells) :
        cell ∈ contexts.map (·.cell margin) := mem_of_mem_splitRows hr hcell
    have hgreatest := Row.isGreatest_height fun cell hcell => h cell (hcells cell hcell)
    obtain ⟨cell, hcell, he⟩ := List.mem_map.1 hgreatest.1
    obtain ⟨c, hc, rfl⟩ := List.mem_map.1 (hcells cell hcell)
    exact he.symm.trans (hheight c hc)
  rw [List.sum_eq_card_nsmul _ height hrows, List.length_map, nsmul_eq_mul]

variable [IsStrictOrderedRing K]

theorem cell_width_le_of_distribute (h : distribute contexts canvas margin = .ok placed) :
    ∀ c ∈ contexts, (c.cell margin).size.width ≤ canvas.width := by
  intro c hc
  by_contra hwide
  obtain ⟨c', hc'⟩ := exists_isFirstTooWide_iff.2 ⟨c, hc, not_le.1 hwide⟩
  rw [distribute_of_isFirstTooWide (isAdmissible_of_distribute h) hc'] at h
  cases h

theorem sum_height_le_of_distribute (h : distribute contexts canvas margin = .ok placed) :
    ((rowsOf contexts canvas margin).map Row.height).sum ≤ canvas.height :=
  (exists_distribute_eq_ok_iff (isAdmissible_of_distribute h) (cell_width_le_of_distribute h)).1
    ⟨placed, h⟩

/-- The rows of a canvas are rows that a wider canvas has room for. -/
theorem mayShareRow_of_mem_rowsOf (h : IsAdmissible contexts canvas margin)
    (hwidth : canvas.width ≤ canvas'.width) :
    ∀ r ∈ rowsOf contexts canvas margin,
      MayShareRow (rowCapacity contexts.length) canvas'.width r.cells := by
  intro r hr
  have hshare := mayShareRow_of_mem_splitRows (rowCapacity_pos contexts.length)
    (fun cell hcell => (h.cell_nonneg cell hcell).1) r hr
  exact hshare.mono hwidth

theorem length_rowsOf_le (h : IsAdmissible contexts canvas margin)
    (hwidth : canvas.width ≤ canvas'.width) :
    (rowsOf contexts canvas' margin).length ≤ (rowsOf contexts canvas margin).length := by
  have hflatten : ((rowsOf contexts canvas margin).map Row.cells).flatten =
      contexts.map (·.cell margin) :=
    List.flatMap_def.symm.trans (flatMap_cells_rowsOf contexts canvas margin)
  have hlength : ((rowsOf contexts canvas margin).map Row.cells).length =
      (rowsOf contexts canvas margin).length := List.length_map _
  rw [← hlength]
  apply length_splitRows_le
  · exact List.forall_mem_map.2 (mayShareRow_of_mem_rowsOf h hwidth)
  · rw [hflatten]
    exact fun cell hcell => (h.cell_nonneg cell hcell).1
  · rw [hflatten]

theorem sum_height_rowsOf_le (h : IsAdmissible contexts canvas margin)
    (hwidth : canvas.width ≤ canvas'.width) :
    ((rowsOf contexts canvas' margin).map Row.height).sum ≤
      2 * ((rowsOf contexts canvas margin).map Row.height).sum := by
  have hle := sum_height_splitRows_le (mayShareRow_of_mem_rowsOf h hwidth) fun r hr cell hcell =>
    (h.cell_nonneg cell (mem_of_mem_splitRows hr hcell)).1
  rwa [flatMap_cells_rowsOf] at hle

theorem sum_height_rowsOf_mono (h : IsAdmissible contexts canvas margin)
    (hwidth : canvas.width ≤ canvas'.width) {height : K}
    (hheight : ∀ c ∈ contexts, (c.cell margin).size.height = height) :
    ((rowsOf contexts canvas' margin).map Row.height).sum ≤
      ((rowsOf contexts canvas margin).map Row.height).sum := by
  cases contexts with
  | nil => exact le_rfl
  | cons c contexts =>
    have hcells : ∀ cell ∈ (c :: contexts).map (·.cell margin), 0 ≤ cell.size.height :=
      fun cell hcell => (h.cell_nonneg cell hcell).2
    have hnonneg : 0 ≤ height := by
      rw [← hheight c List.mem_cons_self]
      exact hcells _ List.mem_cons_self
    have hlength := length_rowsOf_le h hwidth
    rw [sum_height_rowsOf_eq hcells hheight, sum_height_rowsOf_eq hcells hheight]
    exact mul_le_mul_of_nonneg_right (Nat.cast_le.2 hlength) hnonneg

/-- A map that fits a canvas is never too wide for a larger one and needs no more rows there, so it
can only be too high. It fits if only the height of the canvas has grown, and the places are the
same; if all cells are of one height; and if the canvas has become twice as high. -/
theorem distribute_on_larger_canvas (h : distribute contexts canvas margin = .ok placed)
    (hwidth : canvas.width ≤ canvas'.width) (hheight : canvas.height ≤ canvas'.height) :
    (rowsOf contexts canvas' margin).length ≤ (rowsOf contexts canvas margin).length ∧
    (∀ fault, distribute contexts canvas' margin = .error fault ↔
      canvas'.height < ((rowsOf contexts canvas' margin).map Row.height).sum ∧
        fault = .tooHigh (rowsOf contexts canvas' margin).length
          ((rowsOf contexts canvas' margin).map Row.height).sum canvas'.height) ∧
    ((∃ placed', distribute contexts canvas' margin = .ok placed') ↔
      ((rowsOf contexts canvas' margin).map Row.height).sum ≤ canvas'.height) ∧
    (canvas'.width = canvas.width → distribute contexts canvas' margin = .ok placed) ∧
    ((∃ height, ∀ c ∈ contexts, (c.cell margin).size.height = height) →
      ∃ placed', distribute contexts canvas' margin = .ok placed') ∧
    (2 * canvas.height ≤ canvas'.height →
      ∃ placed', distribute contexts canvas' margin = .ok placed') := by
  have hsmall := isAdmissible_of_distribute h
  have hlarge := hsmall.mono hwidth hheight
  have hle : ∀ c ∈ contexts, (c.cell margin).size.width ≤ canvas'.width := fun c hc =>
    (cell_width_le_of_distribute h c hc).trans hwidth
  have hsum := sum_height_le_of_distribute h
  have hfits := exists_distribute_eq_ok_iff hlarge hle
  have heq := distribute_of_forall_le hlarge hle
  refine ⟨length_rowsOf_le hsmall hwidth, ?_, hfits, ?_, ?_, ?_⟩
  · intro fault
    rw [heq]
    split
    · next hhigh => rw [Except.error.injEq, eq_comm, and_iff_right hhigh]
    · next hlow => exact iff_of_false nofun fun hhigh => hlow hhigh.1
  · intro hsame
    rw [heq, rowsOf_of_width_eq hsame, if_neg (hsum.trans hheight).not_gt]
    exact congrArg Except.ok (distribute_eq_ok_iff.1 h).2.2
  · intro hcells
    obtain ⟨height, hcells⟩ := hcells
    exact hfits.2 ((sum_height_rowsOf_mono hsmall hwidth hcells).trans (hsum.trans hheight))
  · intro htwice
    apply hfits.2
    calc
      ((rowsOf contexts canvas' margin).map Row.height).sum ≤
          2 * ((rowsOf contexts canvas margin).map Row.height).sum :=
        sum_height_rowsOf_le hsmall hwidth
      _ ≤ 2 * canvas.height := by linarith
      _ ≤ canvas'.height := htwice

end

/-- On a canvas of width 10 the two high contexts share a row below the wide one. On a wider canvas
the wide one shares a row with the first of them, and the two high rows do not fit. -/
theorem exists_wider_canvas_too_low : ∃ contexts placed : List (SizedContext ℚ),
    contexts.map SizedContext.size = [⟨10, 1⟩, ⟨5, 10⟩, ⟨5, 10⟩] ∧
      distribute contexts ⟨10, 11⟩ ⟨0, 0⟩ = .ok placed ∧
      distribute contexts ⟨20, 11⟩ ⟨0, 0⟩ = .error (.tooHigh 2 20 11) := by
  let contexts : List (SizedContext ℚ) :=
    [⟨"A", "A", ⟨10, 1⟩, ⟨0, 0⟩, none⟩, ⟨"B", "B", ⟨5, 10⟩, ⟨0, 0⟩, none⟩,
      ⟨"C", "C", ⟨5, 10⟩, ⟨0, 0⟩, none⟩]
  have hok : (distribute contexts ⟨10, 11⟩ ⟨0, 0⟩).isOk = true := by
    decide +kernel
  have hle : ∀ c ∈ contexts, (c.cell ⟨0, 0⟩).size.width ≤ 20 := by
    decide +kernel
  have hlength : (rowsOf contexts ⟨20, 11⟩ ⟨0, 0⟩).length = 2 := by
    decide +kernel
  have hsum : ((rowsOf contexts ⟨20, 11⟩ ⟨0, 0⟩).map Row.height).sum = 20 := by
    decide +kernel
  obtain ⟨placed, hplaced⟩ := Except.exists_eq_ok_of_isOk hok
  have hlarge : IsAdmissible contexts ⟨20, 11⟩ ⟨0, 0⟩ :=
    (isAdmissible_of_distribute hplaced).mono (by decide +kernel) le_rfl
  have hfault : distribute contexts ⟨20, 11⟩ ⟨0, 0⟩ = .error (.tooHigh 2 20 11) :=
    (distribute_eq_tooHigh_iff hlarge hle).2 ⟨by decide +kernel, hsum.symm, hlength.symm, rfl⟩
  exact ⟨contexts, placed, rfl, hplaced, hfault⟩

theorem distribute_on_larger_canvas_three : ∃ contexts placed : List (SizedContext ℚ),
    contexts.map SizedContext.size = [⟨10, 1⟩, ⟨5, 10⟩, ⟨5, 10⟩] ∧
      distribute contexts ⟨10, 11⟩ ⟨0, 0⟩ = .ok placed ∧
      distribute contexts ⟨10, 15⟩ ⟨0, 0⟩ = .ok placed ∧
      (rowsOf contexts ⟨10, 11⟩ ⟨0, 0⟩).map Row.length = [1, 2] ∧
      (rowsOf contexts ⟨20, 22⟩ ⟨0, 0⟩).map Row.length = [2, 1] ∧
      ∃ placed', distribute contexts ⟨20, 22⟩ ⟨0, 0⟩ = .ok placed' := by
  let contexts : List (SizedContext ℚ) :=
    [⟨"A", "A", ⟨10, 1⟩, ⟨0, 0⟩, none⟩, ⟨"B", "B", ⟨5, 10⟩, ⟨0, 0⟩, none⟩,
      ⟨"C", "C", ⟨5, 10⟩, ⟨0, 0⟩, none⟩]
  have hok : (distribute contexts ⟨10, 11⟩ ⟨0, 0⟩).isOk = true := by
    decide +kernel
  have hrows : (rowsOf contexts ⟨10, 11⟩ ⟨0, 0⟩).map Row.length = [1, 2] := by
    decide +kernel
  have hrows' : (rowsOf contexts ⟨20, 22⟩ ⟨0, 0⟩).map Row.length = [2, 1] := by
    decide +kernel
  obtain ⟨placed, hplaced⟩ := Except.exists_eq_ok_of_isOk hok
  have hlarger (canvas' : Size ℚ) (hwidth : 10 ≤ canvas'.width) (hheight : 11 ≤ canvas'.height) :=
    distribute_on_larger_canvas hplaced hwidth hheight
  obtain ⟨-, -, -, hsame, -⟩ := hlarger ⟨10, 15⟩ le_rfl (by decide +kernel)
  obtain ⟨-, -, -, -, -, htwice⟩ := hlarger ⟨20, 22⟩ (by decide +kernel) (by decide +kernel)
  exact ⟨contexts, placed, rfl, hplaced, hsame rfl, hrows, hrows', htwice (by decide +kernel)⟩

end ContextDiagram.Layout
