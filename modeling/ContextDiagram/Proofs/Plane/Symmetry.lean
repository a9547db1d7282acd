import ContextDiagram.Proofs.Plane.Exact
import ContextDiagram.Plane.Basic

namespace ContextDiagram.Plane

open Float.Model

class SymmetricScalar (α : Type) [Scalar α] : Prop where
  add_comm : ∀ x y : α, x + y = y + x
  same_comm : ∀ x y : α, Scalar.same x y = Scalar.same y x

instance {K : Type} [Field K] [LinearOrder K] : SymmetricScalar K where
  add_comm := add_comm
  same_comm _ _ := decide_eq_decide.2 eq_comm

theorem unpackedAdd_comm (format : Format) (x y : UnpackedFloat) :
    UnpackedFloat.add format x y = UnpackedFloat.add format y x := by
  cases x with
  | notANumber => cases y <;> rfl
  | infinity s =>
    cases y with
    | infinity t => cases s <;> cases t <;> rfl
    | notANumber => rfl
    | zero t => rfl
    | finite t m e h => rfl
  | zero s =>
    cases y with
    | zero t => cases s <;> cases t <;> rfl
    | notANumber => rfl
    | infinity t => rfl
    | finite t m e h => rfl
  | finite s m e h =>
    cases y with
    | finite t n f h' =>
      simp only [UnpackedFloat.add]
      rw [min_comm, Int.add_comm]
    | notANumber => rfl
    | infinity t => rfl
    | zero t => rfl

theorem unpackedCompare_swap (x y : UnpackedFloat) :
    y.compare x = (x.compare y).map Ordering.swap := by
  have hswap (e f : Int) (m n : Nat) : (compare f e).then (compare n m) =
      ((compare e f).then (compare m n)).swap := by
    rw [Ordering.swap_then, ← Std.OrientedCmp.eq_swap, ← Std.OrientedCmp.eq_swap]
  cases x with
  | notANumber => cases y <;> rfl
  | infinity s =>
    cases y with
    | infinity t => cases s <;> cases t <;> rfl
    | notANumber => rfl
    | zero t => cases s <;> rfl
    | finite t m e h => cases s <;> rfl
  | zero s =>
    cases y with
    | infinity t => cases t <;> rfl
    | notANumber => rfl
    | zero t => rfl
    | finite t m e h => cases t <;> rfl
  | finite s m e h =>
    cases y with
    | infinity t => cases t <;> rfl
    | notANumber => rfl
    | zero t => cases s <;> rfl
    | finite t n f h' =>
      cases s <;> cases t
      · exact congrArg (fun o => some (Ordering.swap o)) (hswap e f m n)
      · rfl
      · rfl
      · exact congrArg some (hswap e f m n)

theorem unpackedBeq_comm (x y : UnpackedFloat) : x.beq y = y.beq x := by
  rw [UnpackedFloat.beq, UnpackedFloat.beq, unpackedCompare_swap x y]
  cases x.compare y with
  | none => rfl
  | some o => cases o <;> rfl

instance : SymmetricScalar Float32 where
  add_comm x y :=
    congrArg (fun u => Float32.ofModel (.pack u))
      (unpackedAdd_comm _ x.toModel.unpack y.toModel.unpack)
  same_comm x y := unpackedBeq_comm x.toModel.unpack y.toModel.unpack

namespace Point

variable {α : Type} [Scalar α] [SymmetricScalar α] (p q : Point α)

theorem midpoint_comm : p.midpoint q = q.midpoint p := by
  rw [midpoint, midpoint, SymmetricScalar.add_comm p.x, SymmetricScalar.add_comm p.y]

theorem isAligned_comm : p.isAligned q = q.isAligned p := by
  rw [isAligned, isAligned, SymmetricScalar.same_comm p.x, SymmetricScalar.same_comm p.y]

end Point

end ContextDiagram.Plane
