import ContextDiagram.Proofs.Layout.FewestRows

namespace ContextDiagram.Layout

open Plane

theorem rowCapacity_pos (count : Nat) : 0 < rowCapacity count :=
  Nat.le_max_left 1 _

theorem validate_eq_ok_iff {α : Type} [Scalar α] {contexts : List (SizedContext α)}
    {canvas : Size α} {margin : Spacing α} :
    validate contexts canvas margin = .ok () ↔
      canvas.isPositive = true ∧ margin.isValid = true ∧
        ∀ c ∈ contexts, c.size.isValid = true := by
  rw [validate]
  cases canvas.isPositive with
  | false => exact iff_of_false nofun nofun
  | true =>
    cases margin.isValid with
    | false => exact iff_of_false nofun nofun
    | true =>
      rw [and_iff_right rfl, and_iff_right rfl, if_neg nofun, if_neg nofun]
      cases hfind : contexts.find? fun c => !c.size.isValid with
      | some c =>
        have hbad := List.find?_some hfind
        rw [Bool.not_eq_true', ← Bool.not_eq_true] at hbad
        exact iff_of_false nofun fun h => hbad (h c (List.mem_of_find?_eq_some hfind))
      | none =>
        refine iff_of_true rfl fun c hc => ?_
        have hvalid := List.find?_eq_none.1 hfind c hc
        rwa [Bool.not_eq_true', Bool.not_eq_false] at hvalid

variable {K : Type} [Field K] [LinearOrder K]

/-- What a distribution asks for: a canvas with an area, and no negative lengths. -/
structure IsAdmissible (contexts : List (SizedContext K)) (canvas : Size K) (margin : Spacing K) :
    Prop where
  canvas_pos : 0 < canvas.width ∧ 0 < canvas.height
  margin_nonneg : 0 ≤ margin.horizontal ∧ 0 ≤ margin.vertical
  size_nonneg : ∀ c ∈ contexts, 0 ≤ c.size.width ∧ 0 ≤ c.size.height

section

variable {contexts : List (SizedContext K)} {canvas : Size K} {margin : Spacing K}

theorem isPositive_eq_true_iff {size : Size K} :
    size.isPositive = true ↔ 0 < size.width ∧ 0 < size.height := by
  have hnot (x : K) : (!Scalar.le x Scalar.zero) = true ↔ 0 < x := by
    rw [Bool.not_eq_true', ← Bool.not_eq_true, Scalar.le_eq_true_iff, Scalar.zero_eq, not_le]
  rw [Size.isPositive, Size.isValid, Bool.and_eq_true, Bool.and_eq_true, Bool.and_eq_true, hnot,
    hnot, Scalar.isLength_eq_true_iff, Scalar.isLength_eq_true_iff]
  constructor
  · intro h
    exact ⟨h.1.2, h.2⟩
  · intro h
    exact ⟨⟨⟨h.1.le, h.2.le⟩, h.1⟩, h.2⟩

theorem validate_eq_ok_iff_isAdmissible :
    validate contexts canvas margin = .ok () ↔ IsAdmissible contexts canvas margin := by
  have hmargin : margin.isValid = true ↔ 0 ≤ margin.horizontal ∧ 0 ≤ margin.vertical := by
    rw [Spacing.isValid, Bool.and_eq_true, Scalar.isLength_eq_true_iff,
      Scalar.isLength_eq_true_iff]
  have hsize (size : Size K) : size.isValid = true ↔ 0 ≤ size.width ∧ 0 ≤ size.height := by
    rw [Size.isValid, Bool.and_eq_true, Scalar.isLength_eq_true_iff, Scalar.isLength_eq_true_iff]
  rw [validate_eq_ok_iff, isPositive_eq_true_iff, hmargin]
  simp only [hsize]
  exact ⟨fun h => ⟨h.1, h.2.1, h.2.2⟩, fun h => ⟨h.canvas_pos, h.margin_nonneg, h.size_nonneg⟩⟩

theorem isAdmissible_of_distribute {placed : List (SizedContext K)}
    (h : distribute contexts canvas margin = .ok placed) : IsAdmissible contexts canvas margin :=
  validate_eq_ok_iff_isAdmissible.1 (distribute_eq_ok_iff.1 h).1

theorem checkFits_of_find?_eq_some {rows : List (Row K)} {r : Row K}
    (h : rows.find? (fun r => Scalar.lt canvas.width r.width) = some r) :
    checkFits rows canvas = .error (.tooWide r.first.id r.width canvas.width) := by
  rw [checkFits, h]

theorem checkFits_of_find?_eq_none {rows : List (Row K)}
    (h : rows.find? (fun r => Scalar.lt canvas.width r.width) = none) :
    checkFits rows canvas =
      if canvas.height < (rows.map Row.height).sum then
        .error (.tooHigh rows.length (rows.map Row.height).sum canvas.height)
      else .ok () := by
  rw [checkFits, h]
  simp only [Scalar.lt_eq_true_iff, totalHeight, Scalar.sum_eq]

theorem IsAdmissible.distribute_eq (h : IsAdmissible contexts canvas margin) :
    distribute contexts canvas margin =
      checkFits (rowsOf contexts canvas margin) canvas >>= fun _ =>
        .ok (contexts.zipWith SizedContext.placeAt
          (centersOf (rowsOf contexts canvas margin))) := by
  have hdistribute : distribute contexts canvas margin =
      validate contexts canvas margin >>= fun _ =>
        checkFits (rowsOf contexts canvas margin) canvas >>= fun _ =>
          .ok (contexts.zipWith SizedContext.placeAt
            (centersOf (rowsOf contexts canvas margin))) := rfl
  rw [hdistribute, validate_eq_ok_iff_isAdmissible.2 h]
  rfl

variable [IsStrictOrderedRing K]

theorem IsAdmissible.cell_nonneg (h : IsAdmissible contexts canvas margin) :
    ∀ cell ∈ contexts.map (·.cell margin), 0 ≤ cell.size.width ∧ 0 ≤ cell.size.height := by
  intro cell hcell
  obtain ⟨c, hc, rfl⟩ := List.mem_map.1 hcell
  have htwo : (Scalar.ofNat 2 : K) = 2 := Nat.cast_ofNat
  obtain ⟨hwidth, hheight⟩ := h.size_nonneg c hc
  obtain ⟨hhorizontal, hvertical⟩ := h.margin_nonneg
  change 0 ≤ c.size.width + Scalar.ofNat 2 * margin.horizontal ∧
    0 ≤ c.size.height + Scalar.ofNat 2 * margin.vertical
  rw [htwo]
  constructor <;> linarith

end

theorem find?_flatMap_cells {α : Type} {rows : List (Row α)} {isWide : Cell α → Bool}
    {isTooWide : Row α → Bool}
    (h : ∀ r ∈ rows, r.cells.find? isWide = if isTooWide r then some r.first else none) :
    (rows.flatMap Row.cells).find? isWide = (rows.find? isTooWide).map Row.first := by
  induction rows with
  | nil => rfl
  | cons r rows ih =>
    obtain ⟨hr, hrows⟩ := List.forall_mem_cons.1 h
    rw [List.flatMap_cons, List.find?_append, hr, ih hrows, List.find?_cons]
    cases isTooWide r with
    | true => rfl
    | false => rfl

section

variable [IsStrictOrderedRing K] {capacity : Nat} {limit : K} {cells : List (Cell K)} {r : Row K}

/-- A row that is too wide has taken no cell but its first. -/
theorem eq_single_of_limit_lt (hcapacity : 0 < capacity)
    (hwidth : ∀ cell ∈ cells, 0 ≤ cell.size.width) (hr : r ∈ splitRows capacity limit cells)
    (h : limit < r.width) : r = .single r.first ∧ r.width = r.first.size.width := by
  have hcells : ∀ cell ∈ r.cells, 0 ≤ cell.size.width := fun cell hcell =>
    hwidth cell (mem_of_mem_splitRows hr hcell)
  obtain ⟨first, others⟩ := r
  cases others with
  | nil =>
    have hfirst : 0 ≤ first.size.width := hcells first List.mem_cons_self
    have hpitch : Row.pitch ⟨first, []⟩ = first.size.width := by
      change max Scalar.zero first.size.width = first.size.width
      rw [Scalar.zero_eq, max_eq_right hfirst]
    refine ⟨rfl, ?_⟩
    rw [Row.width_eq, hpitch]
    exact (congrArg (· * _) Nat.cast_one).trans (one_mul _)
  | cons cell others =>
    -- A second cell was only taken because the row with it was not too wide.
    have hshare := mayShareRow_of_mem_splitRows hcapacity hwidth _ hr
    have hle := (Row.width_le_iff hcells).2 (hshare.width_le (Nat.le_add_left 2 others.length))
    exact absurd h hle.not_gt

theorem find?_cells_of_mem_splitRows (hcapacity : 0 < capacity)
    (hwidth : ∀ cell ∈ cells, 0 ≤ cell.size.width) (hr : r ∈ splitRows capacity limit cells) :
    (r.cells.find? fun cell => Scalar.lt limit cell.size.width) =
      if Scalar.lt limit r.width then some r.first else none := by
  split
  · next h =>
    obtain ⟨hsingle, heq⟩ := eq_single_of_limit_lt hcapacity hwidth hr (Scalar.lt_eq_true_iff.1 h)
    rw [heq] at h
    rw [hsingle]
    exact List.find?_cons_of_pos h
  · next h =>
    rw [Bool.not_eq_true, Scalar.lt_eq_false_iff] at h
    apply List.find?_eq_none.2
    intro cell hcell
    rw [Bool.not_eq_true, Scalar.lt_eq_false_iff]
    have hone : (1 : K) ≤ r.length := Nat.one_le_cast.2 (Nat.le_add_left 1 _)
    calc
      cell.size.width ≤ r.pitch := Row.width_le_pitch hcell
      _ ≤ r.length * r.pitch := le_mul_of_one_le_left r.pitch_nonneg hone
      _ ≤ limit := h

theorem find?_splitRows (hcapacity : 0 < capacity)
    (hwidth : ∀ cell ∈ cells, 0 ≤ cell.size.width) :
    ((splitRows capacity limit cells).find? fun r => Scalar.lt limit r.width).map Row.first =
      cells.find? fun cell => Scalar.lt limit cell.size.width := by
  have hrows := find?_flatMap_cells fun r (hr : r ∈ splitRows capacity limit cells) =>
    find?_cells_of_mem_splitRows hcapacity hwidth hr
  rw [flatMap_cells_splitRows] at hrows
  exact hrows.symm

end

def IsFirstTooWide (contexts : List (SizedContext K)) (canvas : Size K) (margin : Spacing K)
    (c : SizedContext K) : Prop :=
  ∃ before after, contexts = before ++ c :: after ∧
    (∀ b ∈ before, (b.cell margin).size.width ≤ canvas.width) ∧
      canvas.width < (c.cell margin).size.width

section

variable {contexts : List (SizedContext K)} {canvas : Size K} {margin : Spacing K}

theorem isFirstTooWide_iff {c : SizedContext K} :
    IsFirstTooWide contexts canvas margin c ↔
      contexts.find? (fun c => Scalar.lt canvas.width (c.cell margin).size.width) = some c := by
  rw [List.find?_eq_some_iff_append, Scalar.lt_eq_true_iff, IsFirstTooWide]
  simp only [Bool.not_eq_true', Scalar.lt_eq_false_iff]
  tauto

theorem exists_isFirstTooWide_iff :
    (∃ c, IsFirstTooWide contexts canvas margin c) ↔
      ∃ c ∈ contexts, canvas.width < (c.cell margin).size.width := by
  simp only [isFirstTooWide_iff]
  rw [← Option.isSome_iff_exists, List.find?_isSome]
  simp only [Scalar.lt_eq_true_iff]

variable [IsStrictOrderedRing K]

theorem find?_rowsOf (h : IsAdmissible contexts canvas margin) :
    ((rowsOf contexts canvas margin).find? fun r => Scalar.lt canvas.width r.width).map Row.first =
      (contexts.find? fun c => Scalar.lt canvas.width (c.cell margin).size.width).map
        (·.cell margin) := by
  have hwidth : ∀ cell ∈ contexts.map (·.cell margin), 0 ≤ cell.size.width := fun cell hcell =>
    (h.cell_nonneg cell hcell).1
  rw [rowsOf, find?_splitRows (rowCapacity_pos _) hwidth, List.find?_map]
  rfl

theorem distribute_of_isFirstTooWide (h : IsAdmissible contexts canvas margin)
    {c : SizedContext K} (hc : IsFirstTooWide contexts canvas margin c) :
    distribute contexts canvas margin =
      .error (.tooWide c.id (c.cell margin).size.width canvas.width) := by
  have hfind := find?_rowsOf h
  rw [isFirstTooWide_iff.1 hc] at hfind
  obtain ⟨r, hr, hfirst⟩ := Option.map_eq_some_iff.1 hfind
  have hlt := List.find?_some hr
  have hwide : canvas.width < r.width := Scalar.lt_eq_true_iff.1 hlt
  obtain ⟨-, hwidth⟩ := eq_single_of_limit_lt (rowCapacity_pos _)
    (fun cell hcell => (h.cell_nonneg cell hcell).1) (List.mem_of_find?_eq_some hr) hwide
  rw [h.distribute_eq, checkFits_of_find?_eq_some hr, hwidth, hfirst]
  rfl

theorem distribute_of_forall_le (h : IsAdmissible contexts canvas margin)
    (hle : ∀ c ∈ contexts, (c.cell margin).size.width ≤ canvas.width) :
    distribute contexts canvas margin =
      if canvas.height < ((rowsOf contexts canvas margin).map Row.height).sum then
        .error (.tooHigh (rowsOf contexts canvas margin).length
          ((rowsOf contexts canvas margin).map Row.height).sum canvas.height)
      else
        .ok (contexts.zipWith SizedContext.placeAt
          (centersOf (rowsOf contexts canvas margin))) := by
  have hnone :
      (contexts.find? fun c => Scalar.lt canvas.width (c.cell margin).size.width) = none := by
    apply List.find?_eq_none.2
    intro c hc
    rw [Bool.not_eq_true, Scalar.lt_eq_false_iff]
    exact hle c hc
  have hfind := find?_rowsOf h
  rw [hnone] at hfind
  rw [h.distribute_eq, checkFits_of_find?_eq_none (Option.map_eq_none_iff.1 hfind)]
  split
  · rfl
  · rfl

theorem distribute_eq_tooWide_iff (h : IsAdmissible contexts canvas margin) {id : String}
    {width limit : K} :
    distribute contexts canvas margin = .error (.tooWide id width limit) ↔
      ∃ c, IsFirstTooWide contexts canvas margin c ∧
        id = c.id ∧ width = (c.cell margin).size.width ∧ limit = canvas.width := by
  constructor
  · intro hd
    by_cases hc : ∃ c, IsFirstTooWide contexts canvas margin c
    · obtain ⟨c, hc⟩ := hc
      rw [distribute_of_isFirstTooWide h hc] at hd
      cases hd
      exact ⟨c, hc, rfl, rfl, rfl⟩
    · have hle : ∀ c ∈ contexts, (c.cell margin).size.width ≤ canvas.width := fun c hmem =>
        not_lt.1 fun hlt => hc (exists_isFirstTooWide_iff.2 ⟨c, hmem, hlt⟩)
      rw [distribute_of_forall_le h hle] at hd
      split at hd
      · cases hd
      · cases hd
  · intro hc
    obtain ⟨c, hc, rfl, rfl, rfl⟩ := hc
    exact distribute_of_isFirstTooWide h hc

theorem distribute_eq_tooHigh_iff (h : IsAdmissible contexts canvas margin)
    (hle : ∀ c ∈ contexts, (c.cell margin).size.width ≤ canvas.width) {count : Nat}
    {height limit : K} :
    distribute contexts canvas margin = .error (.tooHigh count height limit) ↔
      canvas.height < height ∧ height = ((rowsOf contexts canvas margin).map Row.height).sum ∧
        count = (rowsOf contexts canvas margin).length ∧ limit = canvas.height := by
  rw [distribute_of_forall_le h hle]
  constructor
  · intro hd
    split at hd
    · next hheight =>
      cases hd
      exact ⟨hheight, rfl, rfl, rfl⟩
    · cases hd
  · intro hd
    obtain ⟨hheight, rfl, rfl, rfl⟩ := hd
    exact if_pos hheight

theorem exists_distribute_eq_ok_iff (h : IsAdmissible contexts canvas margin)
    (hle : ∀ c ∈ contexts, (c.cell margin).size.width ≤ canvas.width) :
    (∃ placed, distribute contexts canvas margin = .ok placed) ↔
      ((rowsOf contexts canvas margin).map Row.height).sum ≤ canvas.height := by
  rw [distribute_of_forall_le h hle]
  split
  · next hheight => exact iff_of_false nofun hheight.not_ge
  · next hheight => exact iff_of_true ⟨_, rfl⟩ (not_lt.1 hheight)

theorem width_le_of_two_le_length (h : IsAdmissible contexts canvas margin) {r : Row K}
    (hr : r ∈ rowsOf contexts canvas margin) (htwo : 2 ≤ r.length) : r.width ≤ canvas.width := by
  by_contra hwide
  obtain ⟨hsingle, -⟩ := eq_single_of_limit_lt (rowCapacity_pos _)
    (fun cell hcell => (h.cell_nonneg cell hcell).1) hr (not_le.1 hwide)
  rw [hsingle] at htwo
  exact absurd htwo (Nat.not_succ_le_self 1)

/-- A distribution fails for its width exactly if a context has a cell wider than the canvas. The
first such context is blamed, with the width of its own cell; no row of two or more cells is too
wide. If no cell is too wide, a distribution fails exactly if the rows are together higher than the
canvas. -/
theorem distribute_blames_cause (h : IsAdmissible contexts canvas margin) :
    ((∃ id width limit, distribute contexts canvas margin = .error (.tooWide id width limit)) ↔
      ∃ c ∈ contexts, canvas.width < (c.cell margin).size.width) ∧
    (∀ id width limit, distribute contexts canvas margin = .error (.tooWide id width limit) ↔
      ∃ c, IsFirstTooWide contexts canvas margin c ∧
        id = c.id ∧ width = (c.cell margin).size.width ∧ limit = canvas.width) ∧
    (∀ r ∈ rowsOf contexts canvas margin, 2 ≤ r.length → r.width ≤ canvas.width) ∧
    ((∀ c ∈ contexts, (c.cell margin).size.width ≤ canvas.width) →
      (∀ count height limit,
        distribute contexts canvas margin = .error (.tooHigh count height limit) ↔
          canvas.height < height ∧
            height = ((rowsOf contexts canvas margin).map Row.height).sum ∧
            count = (rowsOf contexts canvas margin).length ∧ limit = canvas.height) ∧
      ((∃ placed, distribute contexts canvas margin = .ok placed) ↔
        ((rowsOf contexts canvas margin).map Row.height).sum ≤ canvas.height)) := by
  refine ⟨?_, fun _ _ _ => distribute_eq_tooWide_iff h, fun _ => width_le_of_two_le_length h, ?_⟩
  · rw [← exists_isFirstTooWide_iff]
    constructor
    · intro hd
      obtain ⟨id, width, limit, hd⟩ := hd
      obtain ⟨c, hc, -⟩ := (distribute_eq_tooWide_iff h).1 hd
      exact ⟨c, hc⟩
    · intro hc
      obtain ⟨c, hc⟩ := hc
      exact ⟨_, _, _, distribute_of_isFirstTooWide h hc⟩
  · intro hle
    exact ⟨fun _ _ _ => distribute_eq_tooHigh_iff h hle, exists_distribute_eq_ok_iff h hle⟩

end

/-- Of four contexts the second and the third are too wide for the first canvas, and the second one
is blamed. They all fit the width of the other two canvases, of which one is too low. -/
theorem distribute_blames_cause_four : ∃ contexts : List (SizedContext ℚ),
    contexts.map SizedContext.size = [⟨4, 2⟩, ⟨9, 1⟩, ⟨12, 1⟩, ⟨2, 2⟩] ∧
      (∀ canvas ∈ [⟨10, 9⟩, ⟨14, 5⟩, ⟨14, 6⟩], IsAdmissible contexts canvas ⟨1, 0⟩) ∧
      distribute contexts ⟨10, 9⟩ ⟨1, 0⟩ = .error (.tooWide "B" 11 10) ∧
      distribute contexts ⟨14, 5⟩ ⟨1, 0⟩ = .error (.tooHigh 4 6 5) ∧
      ∃ placed, distribute contexts ⟨14, 6⟩ ⟨1, 0⟩ = .ok placed := by
  let contexts : List (SizedContext ℚ) :=
    [⟨"A", "A", ⟨4, 2⟩, ⟨0, 0⟩, none⟩, ⟨"B", "B", ⟨9, 1⟩, ⟨0, 0⟩, none⟩,
      ⟨"C", "C", ⟨12, 1⟩, ⟨0, 0⟩, none⟩, ⟨"D", "D", ⟨2, 2⟩, ⟨0, 0⟩, none⟩]
  have hsize : ∀ c ∈ contexts, 0 ≤ c.size.width ∧ 0 ≤ c.size.height := by
    decide +kernel
  have hadmissible (canvas : Size ℚ) (h : 0 < canvas.width ∧ 0 < canvas.height) :
      IsAdmissible contexts canvas ⟨1, 0⟩ := ⟨h, by decide +kernel, hsize⟩
  have hnarrow : IsAdmissible contexts ⟨10, 9⟩ ⟨1, 0⟩ := hadmissible _ (by decide +kernel)
  have hlow : IsAdmissible contexts ⟨14, 5⟩ ⟨1, 0⟩ := hadmissible _ (by decide +kernel)
  have hgood : IsAdmissible contexts ⟨14, 6⟩ ⟨1, 0⟩ := hadmissible _ (by decide +kernel)
  have hwidth : ∀ c ∈ contexts, (c.cell ⟨1, 0⟩).size.width ≤ 14 := by
    decide +kernel
  have hheight : ((rowsOf contexts ⟨14, 5⟩ ⟨1, 0⟩).map Row.height).sum = 6 := by
    decide +kernel
  have hlength : (rowsOf contexts ⟨14, 5⟩ ⟨1, 0⟩).length = 4 := by
    decide +kernel
  have hfirst : IsFirstTooWide contexts ⟨10, 9⟩ ⟨1, 0⟩ ⟨"B", "B", ⟨9, 1⟩, ⟨0, 0⟩, none⟩ :=
    ⟨contexts.take 1, contexts.drop 2, rfl, by decide +kernel, by decide +kernel⟩
  obtain ⟨-, hblamed, -⟩ := distribute_blames_cause hnarrow
  obtain ⟨-, -, -, hfit⟩ := distribute_blames_cause hlow
  obtain ⟨-, -, -, hfit'⟩ := distribute_blames_cause hgood
  refine ⟨contexts, rfl, ?_, ?_, ?_, ?_⟩
  · simp only [List.forall_mem_cons]
    exact ⟨hnarrow, hlow, hgood, List.forall_mem_nil _⟩
  · exact (hblamed _ _ _).2 ⟨_, hfirst, rfl, by decide +kernel, rfl⟩
  · exact ((hfit hwidth).1 _ _ _).2 ⟨by decide +kernel, hheight.symm, hlength.symm, rfl⟩
  · exact (hfit' hwidth).2.2 hheight.le

end ContextDiagram.Layout
