import ContextDiagram.Proofs.Layout.Rejection

namespace ContextDiagram.Layout

open Plane

/-- A row as it stands on the canvas: its contexts from the left to the right, the height of their
centres, the distance between neighbours, and how high the row is. -/
structure PlacedRow (K : Type) where
  contexts : List (SizedContext K)
  y : K
  pitch : K
  height : K

/-- Whether a context is higher up than another, or on its left. -/
def ReadsBefore {K : Type} [LT K] (c d : SizedContext K) : Prop :=
  ∃ p q, c.center = some p ∧ d.center = some q ∧ (q.y < p.y ∨ q.y = p.y ∧ p.x < q.x)

theorem ReadsBefore.trans {K : Type} [LinearOrder K] {c d e : SizedContext K}
    (h : ReadsBefore c d) (h' : ReadsBefore d e) : ReadsBefore c e := by
  obtain ⟨p, q, hc, hd, hpq⟩ := h
  obtain ⟨q', s, hd', he, hqs⟩ := h'
  obtain rfl : q = q' := Option.some_inj.1 (hd.symm.trans hd')
  refine ⟨p, s, hc, he, ?_⟩
  rcases hpq with hlt | ⟨heq, hlt⟩
  · rcases hqs with hlt' | ⟨heq', -⟩
    · exact .inl (hlt'.trans hlt)
    · exact .inl (heq'.trans_lt hlt)
  · rcases hqs with hlt' | ⟨heq', hlt'⟩
    · exact .inl (hlt'.trans_eq heq)
    · exact .inr ⟨heq'.trans heq, hlt.trans hlt'⟩

instance {K : Type} [LinearOrder K] : Trans (ReadsBefore (K := K)) ReadsBefore ReadsBefore where
  trans := ReadsBefore.trans

variable {K : Type} [Field K] [LinearOrder K]

def Row.placedAt (r : Row K) (y : K) (contexts : List (SizedContext K)) : PlacedRow K where
  contexts := contexts.zipWith SizedContext.placeAt (r.centers y)
  y := y
  pitch := r.pitch
  height := r.height

namespace PlacedRow

def top (r : PlacedRow K) : K :=
  r.y + Scalar.half r.height

def bottom (r : PlacedRow K) : K :=
  r.y - Scalar.half r.height

/-- Whether a row is as wide between neighbours as its widest cell and as high as its highest one,
with its contexts at one height and every one as far to the left as its counterpart is to the
right. -/
structure IsSetOut (margin : Spacing K) (r : PlacedRow K) : Prop where
  isGreatest_pitch :
    IsGreatest {width | width ∈ r.contexts.map fun c => (c.cell margin).size.width} r.pitch
  isGreatest_height :
    IsGreatest {height | height ∈ r.contexts.map fun c => (c.cell margin).size.height} r.height
  mirrored : ∀ i c d, r.contexts[i]? = some c → r.contexts[r.contexts.length - 1 - i]? = some d →
    ∃ x, c.center = some ⟨x, r.y⟩ ∧ d.center = some ⟨-x, r.y⟩

theorem IsSetOut.pos {margin : Spacing K} {r : PlacedRow K} (h : r.IsSetOut margin)
    (hpos : ∀ c ∈ r.contexts, 0 < (c.cell margin).size.width ∧ 0 < (c.cell margin).size.height) :
    0 < r.pitch ∧ 0 < r.height := by
  obtain ⟨c, hc, hwidth⟩ := List.mem_map.1 h.isGreatest_pitch.1
  obtain ⟨d, hd, hheight⟩ := List.mem_map.1 h.isGreatest_height.1
  rw [← hwidth, ← hheight]
  exact ⟨(hpos c hc).1, (hpos d hd).2⟩

end PlacedRow

def AreBeside (rows : List (PlacedRow K)) (c d : SizedContext K) : Prop :=
  ∃ r ∈ rows, [c, d] <:+: r.contexts ∧
    ∃ x y, c.center = some ⟨x, y⟩ ∧ d.center = some ⟨x + r.pitch, y⟩

def StartsBelow (rows : List (PlacedRow K)) (c d : SizedContext K) : Prop :=
  ∃ r next, [r, next] <:+: rows ∧ r.contexts.getLast? = some c ∧ next.contexts.head? = some d ∧
    ∃ x x' y, c.center = some ⟨x, y⟩ ∧
      d.center = some ⟨x', y - Scalar.half (r.height + next.height)⟩

def Stacked : K → K → List (PlacedRow K) → Prop
  | top, bottom, [] => top = bottom
  | top, bottom, r :: rows => r.top = top ∧ Stacked r.bottom bottom rows

section

variable {rows before after : List (PlacedRow K)} {r next : PlacedRow K} {top bottom : K}

theorem Stacked.top_of_head? (h : Stacked top bottom rows) (hr : rows.head? = some r) :
    r.top = top := by
  cases rows with
  | nil => cases hr
  | cons r' rows =>
    cases hr
    exact h.1

theorem Stacked.bottom_of_getLast? (h : Stacked top bottom rows) (hr : rows.getLast? = some r) :
    r.bottom = bottom := by
  induction rows generalizing top with
  | nil => cases hr
  | cons r' rows ih =>
    cases rows with
    | nil =>
      cases hr
      exact h.2
    | cons next rows =>
      rw [List.getLast?_cons_cons] at hr
      exact ih h.2 hr

theorem Stacked.top_eq_bottom (h : Stacked top bottom (before ++ r :: next :: after)) :
    next.top = r.bottom := by
  induction before generalizing top with
  | nil => exact h.2.1
  | cons r' before ih => exact ih h.2

end

namespace Row

theorem getElem?_contexts_placedAt {r : Row K} {y : K} {contexts : List (SizedContext K)} {i : Nat}
    {c : SizedContext K} (h : (r.placedAt y contexts).contexts[i]? = some c) :
    c.center = some ⟨r.slotX i, y⟩ := by
  obtain ⟨c', center, -, hcenter, rfl⟩ := List.getElem?_zipWith_eq_some.1 h
  rw [eq_of_getElem?_centers hcenter]
  rfl

theorem exists_center_of_mem_placedAt {r : Row K} {y : K} {contexts : List (SizedContext K)}
    {c : SizedContext K} (h : c ∈ (r.placedAt y contexts).contexts) :
    ∃ x, c.center = some ⟨x, y⟩ := by
  obtain ⟨i, hi⟩ := List.mem_iff_getElem?.1 h
  exact ⟨r.slotX i, getElem?_contexts_placedAt hi⟩

variable {margin : Spacing K} {r : Row K} {contexts : List (SizedContext K)}

theorem map_cell_placedAt (h : contexts.map (·.cell margin) = r.cells) (y : K) :
    (r.placedAt y contexts).contexts.map (·.cell margin) = r.cells := by
  have hlength : (r.centers y).length = contexts.length := by
    rw [r.length_centers, ← h, List.length_map]
  rw [← h]
  exact (arePlaced_zipWith hlength).map_eq fun _ _ => rfl

theorem length_contexts_placedAt (h : contexts.map (·.cell margin) = r.cells) (y : K) :
    (r.placedAt y contexts).contexts.length = r.length := by
  rw [← List.length_map (·.cell margin), map_cell_placedAt h, r.length_cells]

theorem contexts_placedAt_ne_nil (h : contexts.map (·.cell margin) = r.cells) (y : K) :
    (r.placedAt y contexts).contexts ≠ [] := by
  intro hnil
  have hcells := map_cell_placedAt h y
  rw [hnil] at hcells
  cases hcells

variable [IsStrictOrderedRing K]

theorem slotX_succ (r : Row K) (slot : Nat) : r.slotX (slot + 1) = r.slotX slot + r.pitch := by
  have hright := (r.slotX_eq (slot + 1)).1
  have hleft := (r.slotX_eq slot).2
  linarith

theorem slotX_sub (r : Row K) {slot : Nat} (h : slot < r.length) :
    r.slotX (r.length - 1 - slot) = -r.slotX slot := by
  have hlength : r.length - 1 = r.others.length := rfl
  have hle : slot ≤ r.others.length := Nat.le_of_lt_succ h
  rw [hlength, slotX_eq_mul, slotX_eq_mul, Nat.cast_sub hle]
  ring

theorem isSetOut_placedAt (h : contexts.map (·.cell margin) = r.cells)
    (hnonneg : ∀ cell ∈ r.cells, 0 ≤ cell.size.width ∧ 0 ≤ cell.size.height) (y : K) :
    (r.placedAt y contexts).IsSetOut margin where
  isGreatest_pitch := by
    have hwidths := isGreatest_pitch fun cell hcell => (hnonneg cell hcell).1
    rwa [← map_cell_placedAt h y, List.map_map] at hwidths
  isGreatest_height := by
    have hheights := isGreatest_height fun cell hcell => (hnonneg cell hcell).2
    rwa [← map_cell_placedAt h y, List.map_map] at hheights
  mirrored := by
    intro i c d hc hd
    have hlt := (List.getElem?_eq_some_iff.1 hc).1
    rw [length_contexts_placedAt h] at hlt hd
    refine ⟨r.slotX i, getElem?_contexts_placedAt hc, ?_⟩
    rw [← r.slotX_sub hlt]
    exact getElem?_contexts_placedAt hd

theorem isChain_placedAt (r : Row K) (y : K) (contexts : List (SizedContext K)) :
    (r.placedAt y contexts).contexts.IsChain fun c d =>
      [c, d] <:+: (r.placedAt y contexts).contexts ∧
        ∃ x, c.center = some ⟨x, y⟩ ∧ d.center = some ⟨x + r.pitch, y⟩ := by
  apply List.isChain_iff_forall_rel_of_append_cons_cons.2
  intro c d before after he
  have hc : (r.placedAt y contexts).contexts[before.length]? = some c := by
    rw [he, List.getElem?_append_right (Nat.le_refl _), Nat.sub_self]
    rfl
  have hd : (r.placedAt y contexts).contexts[before.length + 1]? = some d := by
    rw [he, List.getElem?_append_right (Nat.le_succ _), Nat.succ_sub (Nat.le_refl _), Nat.sub_self]
    rfl
  refine ⟨⟨before, after, ?_⟩, r.slotX before.length, getElem?_contexts_placedAt hc, ?_⟩
  · rw [he, List.append_assoc]
    rfl
  · rw [← r.slotX_succ]
    exact getElem?_contexts_placedAt hd

end Row

def AreRowsOf (margin : Spacing K) (cells : List (Row K)) (rows : List (PlacedRow K)) : Prop :=
  List.Forall₂ (fun r placed => ∃ y contexts, contexts.map (·.cell margin) = r.cells ∧
    placed = r.placedAt y contexts) cells rows

section

variable {margin : Spacing K} {cells : List (Row K)} {rows : List (PlacedRow K)}

theorem AreRowsOf.exists_of_mem (h : AreRowsOf margin cells rows) {placed : PlacedRow K}
    (hp : placed ∈ rows) :
    ∃ r ∈ cells, ∃ y contexts, contexts.map (·.cell margin) = r.cells ∧
      placed = r.placedAt y contexts := by
  induction h with
  | nil => cases hp
  | @cons r placed' cells rows hr _ ih =>
    rcases List.mem_cons.1 hp with rfl | hp
    · exact ⟨r, List.mem_cons_self, hr⟩
    · obtain ⟨r', hr', hplaced⟩ := ih hp
      exact ⟨r', List.mem_cons_of_mem r hr', hplaced⟩

theorem AreRowsOf.map_cells (h : AreRowsOf margin cells rows) :
    rows.map (fun r => r.contexts.map (·.cell margin)) = cells.map Row.cells := by
  induction h with
  | nil => rfl
  | cons hr _ ih =>
    obtain ⟨y, contexts, hcells, rfl⟩ := hr
    rw [List.map_cons, List.map_cons, ih, Row.map_cell_placedAt hcells]

end

theorem size_pos_of_isSetOut {contexts : List (SizedContext K)} {rows : List (PlacedRow K)}
    {margin : Spacing K}
    (hplaced : ArePlaced contexts (rows.flatMap PlacedRow.contexts))
    (hsetout : ∀ r ∈ rows, r.IsSetOut margin)
    (hpos : ∀ c ∈ contexts, 0 < (c.cell margin).size.width ∧ 0 < (c.cell margin).size.height) :
    ∀ r ∈ rows, 0 < r.pitch ∧ 0 < r.height := by
  have hmap := hplaced.map_eq (f := (·.cell margin)) fun _ _ => rfl
  intro r hr
  apply (hsetout r hr).pos
  intro c hc
  have hmem : c.cell margin ∈ contexts.map (·.cell margin) := by
    rw [← hmap]
    exact List.mem_map_of_mem (List.mem_flatMap.2 ⟨r, hr, hc⟩)
  obtain ⟨c', hc', he⟩ := List.mem_map.1 hmem
  rw [← he]
  exact hpos c' hc'

variable [IsStrictOrderedRing K]

theorem exists_placedRows (margin : Spacing K) {contexts : List (SizedContext K)}
    {cells : List (Row K)} (h : contexts.map (·.cell margin) = cells.flatMap Row.cells) (top : K) :
    ∃ rows : List (PlacedRow K),
      rows.flatMap PlacedRow.contexts =
        contexts.zipWith SizedContext.placeAt (stackCenters top cells) ∧
      AreRowsOf margin cells rows ∧ Stacked top (top - (cells.map Row.height).sum) rows := by
  induction cells generalizing contexts top with
  | nil =>
    obtain rfl := List.map_eq_nil_iff.1 h
    exact ⟨[], rfl, .nil, (sub_zero top).symm⟩
  | cons r cells ih =>
    rw [List.flatMap_cons] at h
    obtain ⟨here, below, rfl, hhere, hbelow⟩ := List.map_eq_append_iff.1 h
    obtain ⟨rows, hflat, hrows, hstacked⟩ := ih hbelow (top - r.height)
    have hlength : (r.centers (top - Scalar.half r.height)).length = here.length := by
      rw [r.length_centers, ← hhere, List.length_map]
    refine ⟨r.placedAt (top - Scalar.half r.height) here :: rows, ?_,
      .cons ⟨_, here, hhere, rfl⟩ hrows, ?_, ?_⟩
    · rw [stackCenters, List.zipWith_append hlength.symm, ← hflat]
      rfl
    · exact sub_add_cancel _ _
    · have hbottom : (r.placedAt (top - Scalar.half r.height) here).bottom = top - r.height := by
        change top - Scalar.half r.height - Scalar.half r.height = top - r.height
        rw [Scalar.half_eq]
        ring
      rw [hbottom, List.map_cons, List.sum_cons, ← sub_sub]
      exact hstacked

section

variable {margin : Spacing K} {cells : List (Row K)} {rows : List (PlacedRow K)} {top bottom : K}

/-- From one context to the next the reading goes on in the row or begins the next row. -/
theorem AreRowsOf.isChain (h : AreRowsOf margin cells rows) (hs : Stacked top bottom rows) :
    (rows.flatMap PlacedRow.contexts).IsChain fun c d =>
      AreBeside rows c d ∨ StartsBelow rows c d := by
  have hcenter {r : PlacedRow K} (hr : r ∈ rows) {c : SizedContext K} (hc : c ∈ r.contexts) :
      ∃ x, c.center = some ⟨x, r.y⟩ := by
    obtain ⟨r', -, y, contexts, -, rfl⟩ := h.exists_of_mem hr
    exact Row.exists_center_of_mem_placedAt hc
  have hne : [] ∉ rows.map PlacedRow.contexts := by
    intro hnil
    obtain ⟨r, hr, hcontexts⟩ := List.mem_map.1 hnil
    obtain ⟨r', -, y, contexts, hcells, rfl⟩ := h.exists_of_mem hr
    exact Row.contexts_placedAt_ne_nil hcells y hcontexts
  -- A list cut into rows is a chain if each row is one, and if the last context of each row may
  -- come before the first of the next.
  rw [List.flatMap_def, List.isChain_flatten hne, List.isChain_map]
  constructor
  · intro l hl
    obtain ⟨r, hr, rfl⟩ := List.mem_map.1 hl
    obtain ⟨r', -, y, contexts, -, rfl⟩ := h.exists_of_mem hr
    apply (r'.isChain_placedAt y contexts).imp
    intro c d hcd
    obtain ⟨hadjacent, x, hc, hd⟩ := hcd
    exact .inl ⟨_, hr, hadjacent, x, y, hc, hd⟩
  · apply List.isChain_iff_forall_rel_of_append_cons_cons.2
    intro r next before after he c hc d hd
    have hadjacent : [r, next] <:+: rows := ⟨before, after, by rw [he, List.append_assoc]; rfl⟩
    obtain ⟨x, hx⟩ := hcenter (hadjacent.subset List.mem_cons_self) (List.mem_of_getLast? hc)
    obtain ⟨x', hx'⟩ := hcenter (hadjacent.subset (List.mem_cons_of_mem r List.mem_cons_self))
      (List.mem_of_head? hd)
    rw [he] at hs
    have hy : next.y = r.y - Scalar.half (r.height + next.height) := by
      have hnext : next.y + Scalar.half next.height = r.y - Scalar.half r.height :=
        hs.top_eq_bottom
      rw [Scalar.half_eq, Scalar.half_eq] at hnext
      rw [Scalar.half_eq]
      linarith
    rw [hy] at hx'
    exact .inr ⟨r, next, hadjacent, hc, hd, x, x', r.y, hx, hx'⟩

end

theorem AreBeside.readsBefore {rows : List (PlacedRow K)} {c d : SizedContext K}
    (h : AreBeside rows c d) (hpos : ∀ r ∈ rows, 0 < r.pitch) : ReadsBefore c d := by
  obtain ⟨r, hr, -, x, y, hc, hd⟩ := h
  exact ⟨_, _, hc, hd, .inr ⟨rfl, lt_add_of_pos_right x (hpos r hr)⟩⟩

theorem StartsBelow.readsBefore {rows : List (PlacedRow K)} {c d : SizedContext K}
    (h : StartsBelow rows c d) (hpos : ∀ r ∈ rows, 0 < r.height) : ReadsBefore c d := by
  obtain ⟨r, next, hadjacent, -, -, x, x', y, hc, hd⟩ := h
  have hr := hpos r (hadjacent.subset List.mem_cons_self)
  have hnext := hpos next (hadjacent.subset (List.mem_cons_of_mem r List.mem_cons_self))
  refine ⟨_, _, hc, hd, .inl ?_⟩
  apply sub_lt_self
  rw [Scalar.half_eq]
  linarith

section

variable {contexts placed : List (SizedContext K)} {canvas : Size K} {margin : Spacing K}

theorem exists_placedRows_of_distribute (h : distribute contexts canvas margin = .ok placed) :
    ∃ (rows : List (PlacedRow K)) (top : K), rows.flatMap PlacedRow.contexts = placed ∧
      AreRowsOf margin (rowsOf contexts canvas margin) rows ∧ Stacked top (-top) rows := by
  obtain ⟨-, -, hplaced⟩ := distribute_eq_ok_iff.1 h
  have htop : Scalar.half (totalHeight (rowsOf contexts canvas margin)) =
      ((rowsOf contexts canvas margin).map Row.height).sum / 2 := by
    rw [totalHeight, Scalar.sum_eq, Scalar.half_eq]
  obtain ⟨rows, hflat, hrows, hstacked⟩ := exists_placedRows margin
    (flatMap_cells_rowsOf contexts canvas margin).symm
    (((rowsOf contexts canvas margin).map Row.height).sum / 2)
  have hbottom (height : K) : height / 2 - height = -(height / 2) := by
    ring
  rw [hbottom] at hstacked
  rw [centersOf, htop] at hplaced
  exact ⟨rows, _, hflat.trans hplaced, hrows, hstacked⟩

/-- Contexts whose cells have an area are placed in rows that are set out one below the other. Each
context stands beside the one declared before it or begins the next row, so that they are read in
the order of their declarations, and the rows reach as far up from the centre as down. -/
theorem placedRows_of_distribute (h : distribute contexts canvas margin = .ok placed)
    (hpos : ∀ c ∈ contexts, 0 < (c.cell margin).size.width ∧ 0 < (c.cell margin).size.height) :
    ArePlaced contexts placed ∧
      ∃ rows : List (PlacedRow K), rows.flatMap PlacedRow.contexts = placed ∧
        rows.map (fun r => r.contexts.map (·.cell margin)) =
          (rowsOf contexts canvas margin).map Row.cells ∧
        (∀ r ∈ rows, r.IsSetOut margin) ∧
        (placed.IsChain fun c d => AreBeside rows c d ∨ StartsBelow rows c d) ∧
        placed.Pairwise ReadsBefore ∧
        ∀ first ∈ rows.head?, ∀ last ∈ rows.getLast?, first.top = -last.bottom := by
  have harranged := arePlaced_of_distribute h
  have hcells := (isAdmissible_of_distribute h).cell_nonneg
  obtain ⟨rows, top, rfl, hrows, hstacked⟩ := exists_placedRows_of_distribute h
  have hsetout : ∀ r ∈ rows, r.IsSetOut margin := by
    intro r hr
    obtain ⟨r', hr', y, here, hhere, rfl⟩ := hrows.exists_of_mem hr
    apply Row.isSetOut_placedAt hhere
    exact fun cell hcell => hcells cell (mem_of_mem_splitRows hr' hcell)
  have hchain := hrows.isChain hstacked
  have hsizes := size_pos_of_isSetOut harranged hsetout hpos
  refine ⟨harranged, rows, rfl, hrows.map_cells, hsetout, hchain, ?_, ?_⟩
  · apply List.IsChain.pairwise
    apply hchain.imp
    intro c d hcd
    rcases hcd with hbeside | hbelow
    · exact hbeside.readsBefore fun r hr => (hsizes r hr).1
    · exact hbelow.readsBefore fun r hr => (hsizes r hr).2
  · intro first hfirst last hlast
    rw [hstacked.top_of_head? hfirst, hstacked.bottom_of_getLast? hlast, neg_neg]

end

theorem placedRows_of_distribute_three : ∃ contexts placed : List (SizedContext ℚ),
    contexts.map SizedContext.size = [⟨4, 2⟩, ⟨2, 5⟩, ⟨3, 1⟩] ∧
      distribute contexts ⟨12, 10⟩ ⟨1, 1⟩ = .ok placed ∧
      (∀ c ∈ contexts, 0 < (c.cell ⟨1, 1⟩).size.width ∧ 0 < (c.cell ⟨1, 1⟩).size.height) ∧
      (rowsOf contexts ⟨12, 10⟩ ⟨1, 1⟩).map Row.length = [2, 1] ∧
      placed.Pairwise ReadsBefore ∧
      ∃ rows : List (PlacedRow ℚ), rows.flatMap PlacedRow.contexts = placed ∧
        (∀ r ∈ rows, r.IsSetOut ⟨1, 1⟩) ∧
        placed.IsChain fun c d => AreBeside rows c d ∨ StartsBelow rows c d := by
  let contexts : List (SizedContext ℚ) :=
    [⟨"A", "A", ⟨4, 2⟩, ⟨0, 0⟩, none⟩, ⟨"B", "B", ⟨2, 5⟩, ⟨0, 0⟩, none⟩,
      ⟨"C", "C", ⟨3, 1⟩, ⟨0, 0⟩, none⟩]
  have hok : (distribute contexts ⟨12, 10⟩ ⟨1, 1⟩).isOk = true := by
    decide +kernel
  have hpos : ∀ c ∈ contexts, 0 < (c.cell ⟨1, 1⟩).size.width ∧ 0 < (c.cell ⟨1, 1⟩).size.height := by
    decide +kernel
  have hlengths : (rowsOf contexts ⟨12, 10⟩ ⟨1, 1⟩).map Row.length = [2, 1] := by
    decide +kernel
  obtain ⟨placed, hplaced⟩ := Except.exists_eq_ok_of_isOk hok
  obtain ⟨-, rows, hflat, -, hsetout, hchain, hreads, -⟩ := placedRows_of_distribute hplaced hpos
  exact ⟨contexts, placed, rfl, hplaced, hpos, hlengths, hreads, rows, hflat, hsetout, hchain⟩

end ContextDiagram.Layout
