import ContextDiagram.Language.Grammar
import ContextDiagram.Language.Scan

namespace ContextDiagram.Language

open Source

structure UndeclaredContext where
  context : Located String
  relationship : Span
deriving DecidableEq, Repr

namespace UndeclaredContext

def ofClause (declared : List String) (clause : RelationshipClause) : List UndeclaredContext :=
  ([clause.source.context, clause.target.context].filter fun c => !declared.contains c.value).map
    fun c => ⟨c, clause.span⟩

def diagnostic (u : UndeclaredContext) : Diagnostic where
  severity := .warning
  code := some .undeclaredContext
  message := "bounded context `" ++ u.context.value ++ "` is never declared"
  labels :=
    [⟨u.context.span, "referenced here", true⟩, ⟨u.relationship, "in this relationship", false⟩]
  help := some ("add `contains " ++ u.context.value ++ "` to the context map")

end UndeclaredContext

/-- The undeclared contexts of a document. A declaration counts wherever it stands. -/
def Document.undeclared (d : Document) : List UndeclaredContext :=
  d.clauses.flatMap (UndeclaredContext.ofClause (d.declarations.map Located.value))

def readDocument (source : String) : Except (List Diagnostic) Document := do
  let lexemes ← scan source
  match Document.ofLexemes lexemes with
  | .ok document => return document
  | .error fault => throw [fault.diagnostic lexemes]

structure Reading where
  map : ContextMap
  warnings : List Diagnostic
deriving DecidableEq, Repr

def read (source : String) : Except (List Diagnostic) Reading := do
  let document ← readDocument source
  return ⟨document.contextMap, document.undeclared.map UndeclaredContext.diagnostic⟩

end ContextDiagram.Language
