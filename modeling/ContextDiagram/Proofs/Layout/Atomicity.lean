import ContextDiagram.Layout.InPlace
import ContextDiagram.Proofs.Layout.Placement

namespace ContextDiagram.Layout

open Plane

section

variable {α : Type}

def IsLevel (contexts : List (SizedContext α)) : Prop :=
  ∃ y, ∀ c ∈ contexts, ∃ x, c.center = some ⟨x, y⟩

theorem map_center_zipWith {contexts : List (SizedContext α)} {centers : List (Point α)}
    (h : centers.length = contexts.length) :
    (contexts.zipWith SizedContext.placeAt centers).map SizedContext.center =
      centers.map some := by
  induction contexts generalizing centers with
  | nil =>
    obtain rfl := List.length_eq_zero_iff.1 h
    rfl
  | cons c contexts ih =>
    cases centers with
    | nil => cases h
    | cons center centers =>
      rw [List.zipWith_cons_cons, List.map_cons, ih (Nat.succ.inj h)]
      rfl

theorem placeNth_append {before contexts : List (SizedContext α)} {c : SizedContext α}
    (h : c.center = none) (center : Point α) :
    placeNth before.length center (before ++ c :: contexts) =
      .ok ((), before ++ c.placeAt center :: contexts) := by
  have hget : (before ++ c :: contexts)[before.length]? = some c := by
    rw [List.getElem?_append_right (Nat.le_refl _), Nat.sub_self]
    rfl
  rw [placeNth, hget]
  dsimp only
  rw [h, List.set_append_right _ _ (Nat.le_refl _), Nat.sub_self]
  rfl

theorem placeAll_cons (place : Nat × Point α) (places : List (Nat × Point α))
    (contexts : List (SizedContext α)) :
    placeAll (place :: places) contexts =
      placeNth place.1 place.2 contexts >>= fun result => placeAll places result.2 := rfl

/-- When the contexts before an index have been placed, the place of each of the others falls on a
context that is there and that has none. -/
theorem placeAll_append {before contexts : List (SizedContext α)} {centers : List (Point α)}
    (h : ∀ c ∈ contexts, c.center = none) (hlength : centers.length = contexts.length) :
    placeAll ((List.range' before.length contexts.length).zip centers) (before ++ contexts) =
      .ok ((), before ++ contexts.zipWith SizedContext.placeAt centers) := by
  induction contexts generalizing before centers with
  | nil => rfl
  | cons c contexts ih =>
    obtain ⟨hc, hcontexts⟩ := List.forall_mem_cons.1 h
    cases centers with
    | nil => cases hlength
    | cons center centers =>
      -- The context that is entered first becomes the last of those before the others.
      have hrest :=
        @ih (before ++ [c.placeAt center]) centers hcontexts (Nat.succ.inj hlength)
      rw [List.length_append, List.length_singleton, List.append_assoc, List.append_assoc] at hrest
      rw [List.length_cons, List.range'_succ, List.zip_cons_cons, placeAll_cons, placeNth_append hc]
      exact hrest

end

section

variable {α : Type} [Scalar α]

namespace Row

theorem map_fst_places (r : Row α) (start : Nat) (y : α) :
    (r.places start y).map Prod.fst = List.range' start r.length := by
  rw [places, List.map_map, List.range'_eq_map_range]
  rfl

theorem map_snd_places (r : Row α) (start : Nat) (y : α) :
    (r.places start y).map Prod.snd = r.centers y := by
  rw [places, List.map_map]
  rfl

end Row

theorem map_fst_stackPlaces (start : Nat) (top : α) (rows : List (Row α)) :
    (stackPlaces start top rows).map Prod.fst =
      List.range' start (rows.flatMap Row.cells).length := by
  induction rows generalizing start top with
  | nil => rfl
  | cons r rows ih =>
    rw [stackPlaces, List.map_append, r.map_fst_places, ih, List.flatMap_cons, List.length_append,
      r.length_cells, List.range'_append_1]

theorem map_snd_stackPlaces (start : Nat) (top : α) (rows : List (Row α)) :
    (stackPlaces start top rows).map Prod.snd = stackCenters top rows := by
  induction rows generalizing start top with
  | nil => rfl
  | cons r rows ih => rw [stackPlaces, List.map_append, r.map_snd_places, ih, stackCenters]

theorem map_fst_placesOf (contexts : List (SizedContext α)) (canvas : Size α)
    (margin : Spacing α) :
    (placesOf (rowsOf contexts canvas margin)).map Prod.fst = List.range contexts.length := by
  rw [placesOf, map_fst_stackPlaces, flatMap_cells_rowsOf, List.length_map, List.range_eq_range']

theorem placesOf_eq_zip (contexts : List (SizedContext α)) (canvas : Size α)
    (margin : Spacing α) :
    placesOf (rowsOf contexts canvas margin) =
      (List.range' 0 contexts.length).zip (centersOf (rowsOf contexts canvas margin)) := by
  apply List.zip_of_prod
  · rw [map_fst_placesOf, List.range_eq_range']
  · exact map_snd_stackPlaces _ _ _

theorem placeAll_placesOf {contexts : List (SizedContext α)} (h : ∀ c ∈ contexts, c.center = none)
    (canvas : Size α) (margin : Spacing α) :
    placeAll (placesOf (rowsOf contexts canvas margin)) contexts =
      .ok ((), contexts.zipWith SizedContext.placeAt
        (centersOf (rowsOf contexts canvas margin))) := by
  rw [placesOf_eq_zip]
  exact @placeAll_append α [] contexts _ h (length_centersOf_rowsOf contexts canvas margin)

theorem run_distributeInPlace {contexts : List (SizedContext α)}
    (h : ∀ c ∈ contexts, c.center = none) (canvas : Size α) (margin : Spacing α) :
    (distributeInPlace canvas margin).run.run contexts =
      match distribute contexts canvas margin with
      | .ok placed => .ok (.ok (), placed)
      | .error fault => .ok (.error fault, contexts) := by
  have hdistribute : distribute contexts canvas margin =
      (validate contexts canvas margin >>= fun _ =>
        checkFits (rowsOf contexts canvas margin) canvas >>= fun _ =>
          .ok (contexts.zipWith SizedContext.placeAt
            (centersOf (rowsOf contexts canvas margin)))) := rfl
  have hrun : (distributeInPlace canvas margin).run.run contexts =
      ((MonadExcept.ofExcept (validate contexts canvas margin) >>= fun _ =>
        MonadExcept.ofExcept (checkFits (rowsOf contexts canvas margin) canvas) >>= fun _ =>
          liftM (placeAll (placesOf (rowsOf contexts canvas margin))) :
        ExceptT (DistributionFault α) (Placing α) Unit).run.run contexts) := rfl
  rw [hdistribute, hrun]
  cases validate contexts canvas margin with
  | error fault => rfl
  | ok =>
    cases checkFits (rowsOf contexts canvas margin) canvas with
    | error fault => rfl
    | ok =>
      have hplaced := placeAll_placesOf h canvas margin
      change (placeAll (placesOf (rowsOf contexts canvas margin)) contexts >>= fun result =>
        Except.ok (Except.ok (), result.2)) = _
      rw [hplaced]
      rfl

theorem isLevel_zipWith {contexts : List (SizedContext α)} {r : Row α} {y : α}
    (h : (r.centers y).length = contexts.length) :
    IsLevel (contexts.zipWith SizedContext.placeAt (r.centers y)) := by
  refine ⟨y, ?_⟩
  intro c hc
  have hcenter : c.center ∈ (r.centers y).map some := by
    rw [← map_center_zipWith h]
    exact List.mem_map_of_mem hc
  obtain ⟨center, hmem, hplaced⟩ := List.mem_map.1 hcenter
  obtain ⟨slot, -, rfl⟩ := List.mem_map.1 hmem
  exact ⟨r.slotX slot, hplaced.symm⟩

theorem exists_levels (margin : Spacing α) {contexts : List (SizedContext α)} {rows : List (Row α)}
    (h : contexts.map (·.cell margin) = rows.flatMap Row.cells) (top : α) :
    ∃ levels : List (List (SizedContext α)),
      contexts.zipWith SizedContext.placeAt (stackCenters top rows) = levels.flatten ∧
        List.Forall₂ (fun r level => level.map (·.cell margin) = r.cells ∧ IsLevel level)
          rows levels := by
  induction rows generalizing contexts top with
  | nil =>
    obtain rfl := List.map_eq_nil_iff.1 h
    exact ⟨[], rfl, .nil⟩
  | cons r rows ih =>
    rw [List.flatMap_cons] at h
    obtain ⟨here, below, rfl, hhere, hbelow⟩ := List.map_eq_append_iff.1 h
    obtain ⟨levels, hlevels, hrows⟩ := ih hbelow (top - r.height)
    have hlength : (r.centers (top - Scalar.half r.height)).length = here.length := by
      rw [r.length_centers, ← hhere, List.length_map]
    have hcells := (arePlaced_zipWith hlength).map_eq (f := (·.cell margin)) fun _ _ => rfl
    rw [stackCenters, List.zipWith_append hlength.symm, hlevels]
    exact ⟨_ :: levels, rfl, .cons ⟨hcells.trans hhere, isLevel_zipWith hlength⟩ hrows⟩

/-- What a distribution in place has made of contexts: their places were entered one by one, each
index once, and those of a row are level. Nothing else about the contexts is new. -/
structure IsDistributed (canvas : Size α) (margin : Spacing α)
    (contexts placed : List (SizedContext α)) : Prop where
  arePlaced : ArePlaced contexts placed
  indices_eq :
    (placesOf (rowsOf contexts canvas margin)).map Prod.fst = List.range contexts.length
  centers_eq : placed.map SizedContext.center =
    (placesOf (rowsOf contexts canvas margin)).map fun place => some place.2
  exists_levels : ∃ levels : List (List (SizedContext α)), placed = levels.flatten ∧
    List.Forall₂ (fun r level => level.map (·.cell margin) = r.cells ∧ IsLevel level)
      (rowsOf contexts canvas margin) levels

theorem isDistributed_of_distribute {contexts placed : List (SizedContext α)} {canvas : Size α}
    {margin : Spacing α} (h : distribute contexts canvas margin = .ok placed) :
    IsDistributed canvas margin contexts placed := by
  obtain ⟨-, -, rfl⟩ := distribute_eq_ok_iff.1 h
  have hlength := length_centersOf_rowsOf contexts canvas margin
  have hcells : contexts.map (·.cell margin) =
      (rowsOf contexts canvas margin).flatMap Row.cells :=
    (flatMap_cells_rowsOf contexts canvas margin).symm
  exact {
    arePlaced := arePlaced_zipWith hlength
    indices_eq := map_fst_placesOf contexts canvas margin
    centers_eq := by
      rw [map_center_zipWith hlength, centersOf, ← map_snd_stackPlaces 0, List.map_map]
      rfl
    exists_levels := exists_levels margin hcells _ }

/-- A distribution in place either fails, with the fault of the distribution and the contexts as
they were, or it places each context once. It never comes upon a context that is not there or that
has a place already. -/
theorem distributeInPlace_atomic {contexts : List (SizedContext α)}
    (h : ∀ c ∈ contexts, c.center = none) (canvas : Size α) (margin : Spacing α) :
    (∃ fault, distribute contexts canvas margin = .error fault ∧
      (distributeInPlace canvas margin).run.run contexts = .ok (.error fault, contexts)) ∨
    ∃ placed, distribute contexts canvas margin = .ok placed ∧
      (distributeInPlace canvas margin).run.run contexts = .ok (.ok (), placed) ∧
        IsDistributed canvas margin contexts placed := by
  have hrun := run_distributeInPlace h canvas margin
  cases hd : distribute contexts canvas margin with
  | error fault =>
    rw [hd] at hrun
    exact .inl ⟨fault, rfl, hrun⟩
  | ok placed =>
    rw [hd] at hrun
    exact .inr ⟨placed, rfl, hrun, isDistributed_of_distribute hd⟩

end

/-- A margin that is not a number leaves three contexts as they are; without a margin they are
placed, in two rows. -/
theorem distributeInPlace_atomic_three : ∃ (contexts placed : List (SizedContext Float32))
    (fault : DistributionFault Float32),
    contexts.map SizedContext.id = ["A", "B", "C"] ∧ (∀ c ∈ contexts, c.center = none) ∧
      (distributeInPlace ⟨300, 200⟩ ⟨0 / 0, 0⟩).run.run contexts = .ok (.error fault, contexts) ∧
      (distributeInPlace ⟨300, 200⟩ ⟨0, 0⟩).run.run contexts = .ok (.ok (), placed) ∧
      (rowsOf contexts ⟨300, 200⟩ ⟨0, 0⟩).map Row.length = [2, 1] ∧
      IsDistributed ⟨300, 200⟩ ⟨0, 0⟩ contexts placed := by
  let contexts : List (SizedContext Float32) :=
    [⟨"A", "A", ⟨100, 20⟩, ⟨0, 0⟩, none⟩, ⟨"B", "B", ⟨150, 30⟩, ⟨0, 0⟩, none⟩,
      ⟨"C", "C", ⟨50, 40⟩, ⟨0, 0⟩, none⟩]
  have hcenter : ∀ c ∈ contexts, c.center = none := by
    intro c hc
    have hall : contexts.all (·.center.isNone) = true := rfl
    exact Option.isNone_iff_eq_none.1 (List.all_eq_true.1 hall c hc)
  have hbad : (distribute contexts ⟨300, 200⟩ ⟨0 / 0, 0⟩).isOk = false := by
    decide +kernel
  have hgood : (distribute contexts ⟨300, 200⟩ ⟨0, 0⟩).isOk = true := by
    decide +kernel
  have hrows : (rowsOf contexts ⟨300, 200⟩ ⟨0, 0⟩).map Row.length = [2, 1] := by
    decide +kernel
  rcases distributeInPlace_atomic hcenter ⟨300, 200⟩ ⟨0 / 0, 0⟩ with
    ⟨fault, -, hfault⟩ | ⟨placed, hplaced, -⟩
  · rcases distributeInPlace_atomic hcenter ⟨300, 200⟩ ⟨0, 0⟩ with
      ⟨fault', herror, -⟩ | ⟨placed, -, hplaced, hdistributed⟩
    · rw [herror] at hgood
      cases hgood
    · exact ⟨contexts, placed, fault, rfl, hcenter, hfault, hplaced, hrows, hdistributed⟩
  · rw [hplaced] at hbad
    cases hbad

end ContextDiagram.Layout
