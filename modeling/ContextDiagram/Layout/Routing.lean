import ContextDiagram.Layout.Labels
import ContextDiagram.Layout.Sizing

namespace ContextDiagram.Layout

open Plane

/-- An arc is the shorter one of its circle, and turns to the right all the way. -/
inductive Curve (α : Type)
  | straight
  | arc (radius : α)
deriving Repr

/-- A relationship as it is drawn; `index` is its place in the map. -/
structure Link (α : Type) where
  index : Nat
  source : String
  target : String
  sourceAnchor : Point α
  targetAnchor : Point α
  curve : Curve α
  direction : Direction
  labelAnchor : Point α
  labels : Labels
deriving Repr

inductive RoutingFault
  | unknownContext (index : Nat) (id : String)
  | unplacedContext (id : String)
deriving DecidableEq, Repr

variable {α : Type} [EuclideanScalar α]

/-- Where the ray from the centre of an ellipse towards a point leaves the ellipse. In the direction
of angle `t` the boundary of an ellipse with radii `a` and `b` lies `a * b / hypotenuse (b * cos t)
(a * sin t)` away from the centre. Without a direction, or in an ellipse without room, it is the
centre. -/
def boundaryPoint (center : Point α) (radii : Size α) (toward : Point α) : Point α :=
  let ray := toward.sub center
  let length := ray.length
  if Scalar.same length Scalar.zero then center
  else
    let cos := ray.x / length
    let sin := ray.y / length
    let divisor := EuclideanScalar.hypotenuse (radii.height * cos) (radii.width * sin)
    if Scalar.same divisor Scalar.zero then center
    else center.add ((Point.mk cos sin).scale (radii.width * radii.height / divisor))

/-- The middle of the shorter arc of a radius that turns to the right from one point to another. It
bulges to the left of the chord, by the radius less the distance of the chord from the circle's
centre. -/
def arcMiddle (start stop : Point α) (radius : α) : Point α :=
  let chord := stop.sub start
  let length := chord.length
  let middle := start.midpoint stop
  if Scalar.same length Scalar.zero then middle
  else
    let half := Scalar.half length
    let bulge := radius -
      EuclideanScalar.sqrt (Scalar.larger (radius * radius - half * half) Scalar.zero)
    let normal := (Point.mk chord.y (-chord.x)).scale (Scalar.ofNat 1 / length)
    middle.add (normal.scale bulge)

def resolve (contexts : List (SizedContext α)) (index : Nat) (id : String) :
    Except RoutingFault (SizedContext α × Point α) :=
  match contexts.find? fun c => c.id == id with
  | none => .error (.unknownContext index id)
  | some c =>
    match c.center with
    | none => .error (.unplacedContext id)
    | some center => .ok (c, center)

/-- A straight line if the centres lie on one axis, and otherwise an arc whose radius is the length
of its chord, so that crossing links stay apart. -/
def connect (index : Nat) (r : Relationship) (source target : SizedContext α × Point α) : Link α :=
  let sourceAnchor := boundaryPoint source.2 source.1.radii target.2
  let targetAnchor := boundaryPoint target.2 target.1.radii source.2
  let radius := sourceAnchor.distance targetAnchor
  let isStraight := source.2.isAligned target.2
  { index := index
    source := r.source.context
    target := r.target.context
    sourceAnchor := sourceAnchor
    targetAnchor := targetAnchor
    curve := if isStraight then .straight else .arc radius
    direction := r.direction
    labelAnchor :=
      if isStraight then sourceAnchor.midpoint targetAnchor
      else arcMiddle sourceAnchor targetAnchor radius
    labels := .ofRelationship r }

/-- The link of one relationship, or what is wrong with its ends, the source first. -/
def route (contexts : List (SizedContext α)) (index : Nat) (r : Relationship) :
    Except (List RoutingFault) (Link α) :=
  match resolve contexts index r.source.context, resolve contexts index r.target.context with
  | .ok source, .ok target => .ok (connect index r source target)
  | .error fault, .ok _ => .error [fault]
  | .ok _, .error fault => .error [fault]
  | .error fault, .error fault' => .error [fault, fault']

def routeAll (contexts : List (SizedContext α)) (index : Nat) :
    List Relationship → List (Link α) × List RoutingFault
  | [] => ([], [])
  | r :: rs =>
    let (links, faults) := routeAll contexts (index + 1) rs
    match route contexts index r with
    | .ok link => (link :: links, faults)
    | .error found => (links, found ++ faults)

end ContextDiagram.Layout
