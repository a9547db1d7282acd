import ContextDiagram.Proofs.Plane.Symmetry
import ContextDiagram.Proofs.Layout.Arc
import ContextDiagram.Proofs.Layout.TagTexts

namespace ContextDiagram

namespace Direction

theorem pointsAtSource_flip (d : Direction) : d.flip.pointsAtSource = d.pointsAtTarget := by
  cases d <;> rfl

theorem pointsAtTarget_flip (d : Direction) : d.flip.pointsAtTarget = d.pointsAtSource := by
  cases d <;> rfl

end Direction

namespace Layout

open Plane

/-- Whether a link is another one drawn from its other end. Where the label of an arc stands depends
on the end it is drawn from. -/
structure Link.IsReverse {α : Type} (back link : Link α) : Prop where
  source_eq : back.source = link.target
  target_eq : back.target = link.source
  sourceAnchor_eq : back.sourceAnchor = link.targetAnchor
  targetAnchor_eq : back.targetAnchor = link.sourceAnchor
  pointsAtSource_eq : back.direction.pointsAtSource = link.direction.pointsAtTarget
  pointsAtTarget_eq : back.direction.pointsAtTarget = link.direction.pointsAtSource
  sourceLabel_eq : back.labels.source = link.labels.target
  targetLabel_eq : back.labels.target = link.labels.source
  middleText_eq : back.labels.middleText = link.labels.middleText
  isStraight_iff : back.curve = .straight ↔ link.curve = .straight
  labelAnchor_eq : link.curve = .straight → back.labelAnchor = link.labelAnchor

section

variable {α : Type} [EuclideanScalar α]

theorem connect_flip_straight [SymmetricScalar α] (index index' : Nat) (r : Relationship)
    (source target : SizedContext α × Point α) :
    ((connect index' r.flip target source).curve = .straight ↔
        (connect index r source target).curve = .straight) ∧
      ((connect index r source target).curve = .straight →
        (connect index' r.flip target source).labelAnchor =
          (connect index r source target).labelAnchor) := by
  have hcomm := Point.isAligned_comm source.2 target.2
  cases haligned : source.2.isAligned target.2 with
  | true =>
    obtain ⟨hcurve, hlabel⟩ := connect_straight index r haligned
    obtain ⟨hcurve', hlabel'⟩ := connect_straight index' r.flip (hcomm.symm.trans haligned)
    refine ⟨iff_of_true hcurve' hcurve, ?_⟩
    intro _
    rw [hlabel, hlabel', Point.midpoint_comm]
    rfl
  | false =>
    obtain ⟨hcurve, -⟩ := connect_arc index r haligned
    obtain ⟨hcurve', -⟩ := connect_arc index' r.flip (hcomm.symm.trans haligned)
    rw [hcurve, hcurve']
    exact ⟨iff_of_false nofun nofun, nofun⟩

theorem isReverse_connect [SymmetricScalar α] (index index' : Nat) (r : Relationship)
    (source target : SizedContext α × Point α) :
    (connect index' r.flip target source).IsReverse (connect index r source target) := by
  have hlabels := Labels.ofRelationship_swap r r.direction.flip
  obtain ⟨hcurve, hlabel⟩ := connect_flip_straight index index' r source target
  exact ⟨rfl, rfl, rfl, rfl, r.direction.pointsAtSource_flip, r.direction.pointsAtTarget_flip,
    congrArg Labels.source hlabels, congrArg Labels.target hlabels,
    congrArg (fun l => l.middle.map Pattern.text) hlabels, hcurve, hlabel⟩

theorem exists_routes {contexts : List (SizedContext α)} {r : Relationship} (index index' : Nat)
    (hsource : IsPlaced contexts r.source.context) (htarget : IsPlaced contexts r.target.context) :
    ∃ source target, route contexts index r = .ok (connect index r source target) ∧
      route contexts index' r.flip = .ok (connect index' r.flip target source) := by
  obtain ⟨c, p, hc⟩ := hsource
  obtain ⟨d, q, hd⟩ := htarget
  refine ⟨(c, p), (d, q), ?_, ?_⟩
  · rw [route, resolve_eq_ok_iff.2 hc, resolve_eq_ok_iff.2 hd]
  · rw [route, Relationship.flip, resolve_eq_ok_iff.2 hc, resolve_eq_ok_iff.2 hd]

end

/-- Whether two points are mirror images of each other in the chord between two points, with the
midpoint of the chord between them. -/
structure AreMirrored (p q start stop : Point ℝ) : Prop where
  midpoint_eq : p.midpoint q = start.midpoint stop
  perpendicular : (q.x - p.x) * (stop.x - start.x) + (q.y - p.y) * (stop.y - start.y) = 0

/-- The formula of the middle turns with the chord, and the bulge only depends on its length. -/
theorem areMirrored_arcMiddle (start stop : Point ℝ) (radius : ℝ) :
    AreMirrored (arcMiddle stop start radius) (arcMiddle start stop radius) start stop := by
  rw [arcMiddle_eq, arcMiddle_eq, Point.length_sub_comm start stop]
  generalize bulge radius (stop.sub start).length / (stop.sub start).length = share
  constructor
  · rw [Point.midpoint_eq, Point.midpoint_eq, Point.mk.injEq]
    constructor <;> ring
  · ring

/-- In exact arithmetic an arc keeps its radius, and its two labels are mirror images. -/
structure Link.IsMirrored (back link : Link ℝ) : Prop where
  isReverse : back.IsReverse link
  curve_eq : back.curve = link.curve
  areMirrored : ∀ radius, link.curve = .arc radius →
    AreMirrored back.labelAnchor link.labelAnchor link.sourceAnchor link.targetAnchor

theorem isMirrored_connect (index index' : Nat) (r : Relationship)
    (source target : SizedContext ℝ × Point ℝ) :
    (connect index' r.flip target source).IsMirrored (connect index r source target) := by
  have hreverse := isReverse_connect index index' r source target
  cases haligned : source.2.isAligned target.2 with
  | true =>
    obtain ⟨hcurve, -⟩ := connect_straight index r haligned
    refine ⟨hreverse, (hreverse.isStraight_iff.2 hcurve).trans hcurve.symm, ?_⟩
    intro radius harc
    cases hcurve.symm.trans harc
  | false =>
    have hcomm := Point.isAligned_comm source.2 target.2
    have hradius := Point.length_sub_comm (connect index r source target).sourceAnchor
      (connect index r source target).targetAnchor
    obtain ⟨hcurve, hlabel⟩ := connect_arc index r haligned
    obtain ⟨hcurve', hlabel'⟩ := connect_arc index' r.flip (hcomm.symm.trans haligned)
    rw [hreverse.sourceAnchor_eq, hreverse.targetAnchor_eq, Point.distance, hradius]
      at hcurve' hlabel'
    refine ⟨hreverse, hcurve'.trans hcurve.symm, ?_⟩
    intro radius _
    rw [hlabel, hlabel']
    exact areMirrored_arcMiddle _ _ _

/-- A relationship that is written from its other end has the same link, drawn from its other
end. -/
theorem route_flip :
    (∀ (contexts : List (SizedContext Float32)) (index index' : Nat) (r : Relationship),
      IsPlaced contexts r.source.context → IsPlaced contexts r.target.context →
        ∃ link back, route contexts index r = .ok link ∧
          route contexts index' r.flip = .ok back ∧ back.IsReverse link) ∧
      ∀ (contexts : List (SizedContext ℝ)) (index index' : Nat) (r : Relationship),
        IsPlaced contexts r.source.context → IsPlaced contexts r.target.context →
          ∃ link back, route contexts index r = .ok link ∧
            route contexts index' r.flip = .ok back ∧ back.IsMirrored link := by
  constructor
  · intro contexts index index' r hsource htarget
    obtain ⟨source, target, hlink, hback⟩ := exists_routes index index' hsource htarget
    exact ⟨_, _, hlink, hback, isReverse_connect index index' r source target⟩
  · intro contexts index index' r hsource htarget
    obtain ⟨source, target, hlink, hback⟩ := exists_routes index index' hsource htarget
    exact ⟨_, _, hlink, hback, isMirrored_connect index index' r source target⟩

theorem route_flip_diagonal :
    (∃ link back,
      route [⟨"A", "A", ⟨2, 2⟩, ⟨0, 0⟩, some ⟨0, 40⟩⟩, ⟨"B", "B", ⟨2, 2⟩, ⟨0, 0⟩, some ⟨30, 0⟩⟩] 0
          ⟨⟨"A", ["U", "OHS"]⟩, .toTarget, ⟨"B", ["D"]⟩⟩ = .ok link ∧
        route [⟨"A", "A", ⟨2, 2⟩, ⟨0, 0⟩, some ⟨0, 40⟩⟩,
            ⟨"B", "B", ⟨2, 2⟩, ⟨0, 0⟩, some ⟨30, 0⟩⟩] 1
          ⟨⟨"B", ["D"]⟩, .toSource, ⟨"A", ["U", "OHS"]⟩⟩ = .ok back ∧
        Link.IsReverse (α := Float32) back link) ∧
      ∃ link back,
        route [⟨"A", "A", ⟨2, 2⟩, ⟨0, 0⟩, some ⟨0, 40⟩⟩,
            ⟨"B", "B", ⟨2, 2⟩, ⟨0, 0⟩, some ⟨30, 0⟩⟩] 0
          ⟨⟨"A", ["U", "OHS"]⟩, .toTarget, ⟨"B", ["D"]⟩⟩ = .ok link ∧
        route [⟨"A", "A", ⟨2, 2⟩, ⟨0, 0⟩, some ⟨0, 40⟩⟩,
            ⟨"B", "B", ⟨2, 2⟩, ⟨0, 0⟩, some ⟨30, 0⟩⟩] 1
          ⟨⟨"B", ["D"]⟩, .toSource, ⟨"A", ["U", "OHS"]⟩⟩ = .ok back ∧
        Link.IsMirrored back link := by
  constructor
  · apply route_flip.1 _ 0 1 ⟨⟨"A", ["U", "OHS"]⟩, .toTarget, ⟨"B", ["D"]⟩⟩
    · exact ⟨_, _, find?_id_eq_some_iff.1 rfl, rfl⟩
    · exact ⟨_, _, find?_id_eq_some_iff.1 rfl, rfl⟩
  · apply route_flip.2 _ 0 1 ⟨⟨"A", ["U", "OHS"]⟩, .toTarget, ⟨"B", ["D"]⟩⟩
    · exact ⟨_, _, find?_id_eq_some_iff.1 rfl, rfl⟩
    · exact ⟨_, _, find?_id_eq_some_iff.1 rfl, rfl⟩

end Layout

end ContextDiagram
