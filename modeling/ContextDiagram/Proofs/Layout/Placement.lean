import ContextDiagram.Layout.Distribution
import ContextDiagram.Proofs.Outcome
import Mathlib.Data.List.Forall2

namespace ContextDiagram.Layout

open Plane

variable {α : Type}

/-- The contexts of a distribution are the given ones, each with a centre. -/
def ArePlaced (contexts placed : List (SizedContext α)) : Prop :=
  List.Forall₂ (fun c p => ∃ center, p = c.placeAt center) contexts placed

theorem arePlaced_zipWith {contexts : List (SizedContext α)} {centers : List (Point α)}
    (h : centers.length = contexts.length) :
    ArePlaced contexts (contexts.zipWith SizedContext.placeAt centers) := by
  induction contexts generalizing centers with
  | nil => exact .nil
  | cons c contexts ih =>
    cases centers with
    | nil => cases h
    | cons center centers => exact .cons ⟨center, rfl⟩ (ih (Nat.succ.inj h))

theorem ArePlaced.map_eq {β : Type} {f : SizedContext α → β}
    (hf : ∀ c center, f (c.placeAt center) = f c) {contexts placed : List (SizedContext α)}
    (h : ArePlaced contexts placed) : placed.map f = contexts.map f := by
  induction h with
  | nil => rfl
  | cons hc _ ih =>
    obtain ⟨center, rfl⟩ := hc
    rw [List.map_cons, List.map_cons, ih, hf]

theorem ArePlaced.map_id {contexts placed : List (SizedContext α)} (h : ArePlaced contexts placed) :
    placed.map SizedContext.id = contexts.map SizedContext.id :=
  h.map_eq fun _ _ => rfl

theorem ArePlaced.isSome_center {contexts placed : List (SizedContext α)}
    (h : ArePlaced contexts placed) : ∀ c ∈ placed, c.center.isSome = true := by
  induction h with
  | nil => nofun
  | cons hc _ ih =>
    obtain ⟨center, rfl⟩ := hc
    exact List.forall_mem_cons.2 ⟨rfl, ih⟩

theorem Row.cells_push (r : Row α) (cell : Cell α) : (r.push cell).cells = r.cells ++ [cell] :=
  rfl

theorem Row.length_cells (r : Row α) : r.cells.length = r.length :=
  rfl

theorem Row.length_push (r : Row α) (cell : Cell α) : (r.push cell).length = r.length + 1 := by
  rw [← length_cells, cells_push, List.length_append]
  rfl

variable [Scalar α]

theorem Row.length_centers (r : Row α) (y : α) : (r.centers y).length = r.cells.length := by
  rw [centers, List.length_map, List.length_range, r.length_cells]

theorem Row.flatMap_cells_fill (capacity : Nat) (limit : α) (r : Row α) (cells : List (Cell α)) :
    (r.fill capacity limit cells).flatMap Row.cells = r.cells ++ cells := by
  induction cells generalizing r with
  | nil => rw [fill, List.flatMap_singleton, List.append_nil]
  | cons cell cells ih =>
    rw [fill]
    split
    · rw [ih, r.cells_push, List.append_assoc]
      rfl
    · rw [List.flatMap_cons, ih]
      rfl

theorem flatMap_cells_splitRows (capacity : Nat) (limit : α) (cells : List (Cell α)) :
    (splitRows capacity limit cells).flatMap Row.cells = cells := by
  cases cells with
  | nil => rfl
  | cons cell cells => exact Row.flatMap_cells_fill capacity limit (.single cell) cells

theorem flatMap_cells_rowsOf (contexts : List (SizedContext α)) (canvas : Size α)
    (margin : Spacing α) :
    (rowsOf contexts canvas margin).flatMap Row.cells = contexts.map (·.cell margin) :=
  flatMap_cells_splitRows _ _ _

theorem length_stackCenters (top : α) (rows : List (Row α)) :
    (stackCenters top rows).length = (rows.flatMap Row.cells).length := by
  induction rows generalizing top with
  | nil => rfl
  | cons r rows ih =>
    rw [stackCenters, List.length_append, Row.length_centers, ih, List.flatMap_cons,
      List.length_append]

theorem length_centersOf_rowsOf (contexts : List (SizedContext α)) (canvas : Size α)
    (margin : Spacing α) :
    (centersOf (rowsOf contexts canvas margin)).length = contexts.length := by
  rw [centersOf, length_stackCenters, flatMap_cells_rowsOf, List.length_map]

theorem distribute_eq_ok_iff {contexts placed : List (SizedContext α)} {canvas : Size α}
    {margin : Spacing α} :
    distribute contexts canvas margin = .ok placed ↔
      validate contexts canvas margin = .ok () ∧
        checkFits (rowsOf contexts canvas margin) canvas = .ok () ∧
          contexts.zipWith SizedContext.placeAt (centersOf (rowsOf contexts canvas margin)) =
            placed := by
  rw [distribute, Except.bind_eq_ok_iff]
  constructor
  · intro h
    obtain ⟨⟨⟩, hv, h⟩ := h
    obtain ⟨⟨⟩, hf, h⟩ := Except.bind_eq_ok_iff.1 h
    exact ⟨hv, hf, Except.pure_eq_ok_iff.1 h⟩
  · intro h
    obtain ⟨hv, hf, h⟩ := h
    exact ⟨(), hv, Except.bind_eq_ok_iff.2 ⟨(), hf, Except.pure_eq_ok_iff.2 h⟩⟩

theorem arePlaced_of_distribute {contexts placed : List (SizedContext α)} {canvas : Size α}
    {margin : Spacing α} (h : distribute contexts canvas margin = .ok placed) :
    ArePlaced contexts placed := by
  obtain ⟨-, -, rfl⟩ := distribute_eq_ok_iff.1 h
  exact arePlaced_zipWith (length_centersOf_rowsOf contexts canvas margin)

end ContextDiagram.Layout
