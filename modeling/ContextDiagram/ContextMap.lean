namespace ContextDiagram

inductive Direction
  | toTarget
  | toSource
  | toBoth
deriving DecidableEq, Repr

namespace Direction

def text : Direction → String
  | toTarget => "->"
  | toSource => "<-"
  | toBoth => "<->"

def ofText? : String → Option Direction
  | "->" => some toTarget
  | "<-" => some toSource
  | "<->" => some toBoth
  | _ => none

def pointsAtSource : Direction → Bool
  | toTarget => false
  | toSource => true
  | toBoth => true

def pointsAtTarget : Direction → Bool
  | toTarget => true
  | toSource => false
  | toBoth => true

def flip : Direction → Direction
  | toTarget => toSource
  | toSource => toTarget
  | toBoth => toBoth

end Direction

structure BoundedContext where
  id : String
  /-- The name to show instead of the identifier. -/
  label : Option String := none
deriving DecidableEq, Repr

def BoundedContext.displayLabel (c : BoundedContext) : String :=
  c.label.getD c.id

structure Endpoint where
  context : String
  tags : List String
deriving DecidableEq, Repr

structure Relationship where
  source : Endpoint
  direction : Direction
  target : Endpoint
deriving DecidableEq, Repr

def Relationship.flip (r : Relationship) : Relationship where
  source := r.target
  direction := r.direction.flip
  target := r.source

/-- A map of contexts and relationships, each in the order of declaration. -/
structure ContextMap where
  name : Option String := none
  contexts : List BoundedContext := []
  relationships : List Relationship := []
deriving DecidableEq, Repr

namespace ContextMap

def empty : ContextMap where

def isEmpty (m : ContextMap) : Bool :=
  m.contexts.isEmpty && m.relationships.isEmpty

def rename (m : ContextMap) (name : String) : ContextMap :=
  { m with name := some name }

def declare (m : ContextMap) (c : BoundedContext) : ContextMap :=
  { m with contexts := m.contexts ++ [c] }

def relate (m : ContextMap) (r : Relationship) : ContextMap :=
  { m with relationships := m.relationships ++ [r] }

end ContextMap

end ContextDiagram
