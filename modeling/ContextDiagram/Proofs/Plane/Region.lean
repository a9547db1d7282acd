import ContextDiagram.Proofs.Plane.Exact
import ContextDiagram.Plane.Basic

namespace ContextDiagram.Plane.Rectangle

variable {K : Type} [Field K] [LinearOrder K]

def around (center : Point K) (size : Size K) : Rectangle K where
  corner := ⟨center.x - size.width / 2, center.y - size.height / 2⟩
  size := size

def region (r : Rectangle K) : Set (Point K) :=
  {p | (r.corner.x ≤ p.x ∧ p.x ≤ r.corner.x + r.size.width) ∧
    (r.corner.y ≤ p.y ∧ p.y ≤ r.corner.y + r.size.height)}

def interior (r : Rectangle K) : Set (Point K) :=
  {p | (r.corner.x < p.x ∧ p.x < r.corner.x + r.size.width) ∧
    (r.corner.y < p.y ∧ p.y < r.corner.y + r.size.height)}

structure LiesIn (r : Rectangle K) (left right bottom top : K) : Prop where
  left_le : left ≤ r.corner.x
  le_right : r.corner.x + r.size.width ≤ right
  bottom_le : bottom ≤ r.corner.y
  le_top : r.corner.y + r.size.height ≤ top

variable {r s : Rectangle K} {left right bottom top left' right' bottom' top' : K}

theorem LiesIn.mono (h : r.LiesIn left right bottom top) (hleft : left' ≤ left)
    (hright : right ≤ right') (hbottom : bottom' ≤ bottom) (htop : top ≤ top') :
    r.LiesIn left' right' bottom' top' where
  left_le := hleft.trans h.left_le
  le_right := h.le_right.trans hright
  bottom_le := hbottom.trans h.bottom_le
  le_top := h.le_top.trans htop

variable [IsStrictOrderedRing K]

theorem liesIn_around {center : Point K} {size : Size K} (hleft : left ≤ center.x - size.width / 2)
    (hright : center.x + size.width / 2 ≤ right) (hbottom : bottom ≤ center.y - size.height / 2)
    (htop : center.y + size.height / 2 ≤ top) :
    (around center size).LiesIn left right bottom top where
  left_le := hleft
  le_right := by
    change center.x - size.width / 2 + size.width ≤ right
    linarith
  bottom_le := hbottom
  le_top := by
    change center.y - size.height / 2 + size.height ≤ top
    linarith

/-- A rectangle is not wider than a strip it lies in, so it has no point in common with one on the
right of the strip. -/
theorem LiesIn.disjoint_of_right_le (hr : r.LiesIn left right bottom top)
    (hs : s.LiesIn left' right' bottom' top') (h : right ≤ left') :
    Disjoint r.interior s.interior := by
  apply Set.disjoint_left.2
  intro p hp hq
  have hlt := hp.1.2
  have hgt := hq.1.1
  have hright := hr.le_right
  have hleft := hs.left_le
  linarith

theorem LiesIn.disjoint_of_top_le (hr : r.LiesIn left right bottom top)
    (hs : s.LiesIn left' right' bottom' top') (h : top' ≤ bottom) :
    Disjoint r.interior s.interior := by
  apply Set.disjoint_left.2
  intro p hp hq
  have hgt := hp.2.1
  have hlt := hq.2.2
  have hbottom := hr.bottom_le
  have htop := hs.le_top
  linarith

theorem mem_region_centered_iff {size : Size K} {p : Point K} :
    p ∈ (centered size).region ↔
      (-(size.width / 2) ≤ p.x ∧ p.x ≤ size.width / 2) ∧
        (-(size.height / 2) ≤ p.y ∧ p.y ≤ size.height / 2) := by
  have hhalf (x : K) : Scalar.half (-x) = -(x / 2) := by
    rw [Scalar.half_eq, neg_div]
  have hend (x : K) : -(x / 2) + x = x / 2 := by
    linarith
  change (Scalar.half (-size.width) ≤ p.x ∧ p.x ≤ Scalar.half (-size.width) + size.width) ∧
    (Scalar.half (-size.height) ≤ p.y ∧ p.y ≤ Scalar.half (-size.height) + size.height) ↔ _
  rw [hhalf, hhalf, hend, hend]

theorem LiesIn.region_subset_centered {size : Size K}
    (h : r.LiesIn (-(size.width / 2)) (size.width / 2) (-(size.height / 2)) (size.height / 2)) :
    r.region ⊆ (centered size).region := by
  intro p hp
  obtain ⟨⟨hx, hx'⟩, hy, hy'⟩ := hp
  apply mem_region_centered_iff.2
  exact ⟨⟨h.left_le.trans hx, hx'.trans h.le_right⟩, h.bottom_le.trans hy, hy'.trans h.le_top⟩

end ContextDiagram.Plane.Rectangle
