import ContextDiagram.ContextMap
import ContextDiagram.Source.Span

namespace ContextDiagram.Language

open Source

structure Party where
  context : Located String
  tags : List (Located String)
deriving DecidableEq, Repr

structure RelationshipClause where
  source : Party
  arrow : Located Direction
  target : Party
deriving DecidableEq, Repr

/-- From the name of the source to the name of the target. -/
def RelationshipClause.span (r : RelationshipClause) : Span :=
  r.source.context.span.union r.target.context.span

inductive Statement
  | contains (names : List (Located String))
  | relationship (clause : RelationshipClause)
deriving DecidableEq, Repr

/-- A `ContextMap` block; its range runs from the keyword to the closing brace. -/
structure Block where
  span : Span
  name : Option (Located String)
  statements : List Statement
deriving DecidableEq, Repr

/-- A source holds one block, or none if it is made of blanks and comments. -/
structure Document where
  block : Option Block
deriving DecidableEq, Repr

def Party.endpoint (p : Party) : Endpoint where
  context := p.context.value
  tags := p.tags.map Located.value

def RelationshipClause.relationship (r : RelationshipClause) : Relationship where
  source := r.source.endpoint
  direction := r.arrow.value
  target := r.target.endpoint

namespace Statement

def declarations : Statement → List (Located String)
  | contains names => names
  | relationship _ => []

def clause? : Statement → Option RelationshipClause
  | contains _ => none
  | relationship clause => some clause

end Statement

namespace Document

def statements (d : Document) : List Statement :=
  (d.block.map Block.statements).getD []

def declarations (d : Document) : List (Located String) :=
  d.statements.flatMap Statement.declarations

def clauses (d : Document) : List RelationshipClause :=
  d.statements.filterMap Statement.clause?

/-- The map that a document describes: its contexts are the declared ones alone. -/
def contextMap (d : Document) : ContextMap where
  name := d.block.bind fun b => b.name.map Located.value
  contexts := d.declarations.map fun name => { id := name.value }
  relationships := d.clauses.map RelationshipClause.relationship

end Document

end ContextDiagram.Language
