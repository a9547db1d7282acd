import Mathlib
import ContextDiagram.Plane.Scalar

namespace ContextDiagram.Plane

variable {K : Type} [Field K] [LinearOrder K]

instance (priority := low) exactScalar : Scalar K where
  ofNat n := n
  lt x y := decide (x < y)
  le x y := decide (x ≤ y)
  same x y := decide (x = y)
  larger := max
  isFinite _ := true

namespace Scalar

theorem zero_eq : (zero : K) = 0 := Nat.cast_zero

theorem half_eq (x : K) : half x = x / 2 := by
  change x / ((2 : Nat) : K) = x / 2
  rw [Nat.cast_ofNat]

theorem lt_eq_true_iff {x y : K} : lt x y = true ↔ x < y := by
  change decide (x < y) = true ↔ x < y
  rw [decide_eq_true_iff]

theorem lt_eq_false_iff {x y : K} : lt x y = false ↔ y ≤ x := by
  change decide (x < y) = false ↔ y ≤ x
  rw [decide_eq_false_iff_not, not_lt]

theorem le_eq_true_iff {x y : K} : le x y = true ↔ x ≤ y := by
  change decide (x ≤ y) = true ↔ x ≤ y
  rw [decide_eq_true_iff]

theorem isLength_eq_true_iff {x : K} : isLength x = true ↔ 0 ≤ x := by
  change le zero x = true ↔ 0 ≤ x
  rw [le_eq_true_iff, zero_eq]

theorem sum_eq (xs : List K) : sum xs = xs.sum := by
  rw [List.sum_eq_foldl, sum, zero_eq]

theorem le_foldl_larger (x : K) (xs : List K) :
    x ≤ xs.foldl larger x ∧ ∀ y ∈ xs, y ≤ xs.foldl larger x := by
  induction xs generalizing x with
  | nil => exact ⟨le_rfl, nofun⟩
  | cons y xs ih =>
    obtain ⟨hmax, hxs⟩ := ih (max x y)
    refine ⟨(le_max_left x y).trans hmax, ?_⟩
    exact List.forall_mem_cons.2 ⟨(le_max_right x y).trans hmax, hxs⟩

theorem largest_nonneg (xs : List K) : 0 ≤ largest xs := by
  have h := (le_foldl_larger (zero : K) xs).1
  exact zero_eq.symm.trans_le h

theorem le_largest {x : K} {xs : List K} (h : x ∈ xs) : x ≤ largest xs :=
  (le_foldl_larger zero xs).2 x h

theorem foldl_larger_mem (x : K) (xs : List K) : xs.foldl larger x ∈ x :: xs := by
  induction xs generalizing x with
  | nil => exact List.mem_singleton_self x
  | cons y xs ih =>
    have hmem := ih (max x y)
    rcases List.mem_cons.1 hmem with he | hxs
    · have hmax : max x y = x ∨ max x y = y := max_choice x y
      rcases hmax with hx | hy
      · exact List.mem_cons.2 (.inl (he.trans hx))
      · exact List.mem_cons_of_mem x (List.mem_cons.2 (.inl (he.trans hy)))
    · exact List.mem_cons_of_mem x (List.mem_cons_of_mem y hxs)

theorem largest_le_iff {xs : List K} {bound : K} :
    largest xs ≤ bound ↔ 0 ≤ bound ∧ ∀ x ∈ xs, x ≤ bound := by
  constructor
  · intro h
    exact ⟨(largest_nonneg xs).trans h, fun x hx => (le_largest hx).trans h⟩
  · intro h
    rcases List.mem_cons.1 (foldl_larger_mem zero xs) with hzero | hmem
    · exact (hzero.trans zero_eq).trans_le h.1
    · exact h.2 _ hmem

/-- The zero that `largest` starts with is not larger than the largest of some lengths. -/
theorem isGreatest_largest {xs : List K} (hne : xs ≠ []) (h : ∀ x ∈ xs, 0 ≤ x) :
    IsGreatest {x | x ∈ xs} (largest xs) := by
  have hbound : largest xs ∈ upperBounds {x | x ∈ xs} := fun _ => le_largest
  refine ⟨?_, hbound⟩
  rcases List.mem_cons.1 (foldl_larger_mem zero xs) with hzero | hmem
  · obtain ⟨x, hx⟩ := List.exists_mem_of_ne_nil xs hne
    have hle : x ≤ 0 := (le_largest hx).trans_eq (hzero.trans zero_eq)
    have hlargest : largest xs = x := by
      rw [largest, hzero, zero_eq]
      exact le_antisymm (h x hx) hle
    rw [hlargest]
    exact hx
  · exact hmem

end Scalar

end ContextDiagram.Plane
