import ContextDiagram.ContextMap

namespace ContextDiagram.Layout

inductive Pattern
  | sharedKernel
  | partnership
  | customerSupplier
deriving DecidableEq, Repr

namespace Pattern

def text : Pattern → String
  | sharedKernel => "Shared Kernel"
  | partnership => "Partnership"
  | customerSupplier => "Customer/Supplier"

def tags : Pattern → List String
  | sharedKernel => ["SK"]
  | partnership => ["P"]
  | customerSupplier => ["C", "S"]

/-- The pattern of two ends with the given tags; an earlier pattern wins over a later one. -/
def ofTags? (source target : List String) : Option Pattern :=
  let pairs (a b : String) := source.contains a && target.contains b
  if pairs "SK" "SK" then some sharedKernel
  else if pairs "P" "P" then some partnership
  else if pairs "C" "S" || pairs "S" "C" then some customerSupplier
  else none

end Pattern

def isStreamTag (tag : String) : Bool :=
  tag == "U" || tag == "D"

def joinTags? (tags : List String) : Option String :=
  if tags.isEmpty then none else some (", ".intercalate tags)

structure EndpointLabel where
  box : Option String
  body : Option String
deriving DecidableEq, Repr

namespace EndpointLabel

def isEmpty (l : EndpointLabel) : Bool :=
  l.box.isNone && l.body.isNone

def ofTags (shownElsewhere tags : List String) : EndpointLabel where
  box := joinTags? (tags.filter isStreamTag)
  body := joinTags? (tags.filter fun tag => !isStreamTag tag && !shownElsewhere.contains tag)

end EndpointLabel

structure Labels where
  middle : Option Pattern
  source : EndpointLabel
  target : EndpointLabel
deriving DecidableEq, Repr

def Labels.middleText (l : Labels) : Option String :=
  l.middle.map Pattern.text

/-- Tags that make a pattern only as a pair are shown once, in the middle; the tags for the two ends
of a stream go into a box at their end, and every other tag beside the box. -/
def Labels.ofRelationship (r : Relationship) : Labels :=
  let pattern := Pattern.ofTags? r.source.tags r.target.tags
  let shown := (pattern.map Pattern.tags).getD []
  { middle := pattern
    source := .ofTags shown r.source.tags
    target := .ofTags shown r.target.tags }

end ContextDiagram.Layout
