import ContextDiagram.Source.Span

namespace ContextDiagram

open Source

inductive Severity
  | error
  | warning
deriving DecidableEq, Repr

def Severity.text : Severity → String
  | .error => "error"
  | .warning => "warning"

inductive DiagnosticCode
  | unclosedComment
  | unexpectedCharacter
  | unexpectedToken
  | incompleteInput
  | unclosedTagList
  | unclosedBlock
  | undeclaredContext
deriving DecidableEq, Repr

namespace DiagnosticCode

def text : DiagnosticCode → String
  | unclosedComment => "E001"
  | unexpectedCharacter => "E002"
  | unexpectedToken => "E100"
  | incompleteInput => "E101"
  | unclosedTagList => "E102"
  | unclosedBlock => "E103"
  | undeclaredContext => "E200"

def description : DiagnosticCode → String
  | unclosedComment => "unterminated block comment"
  | unexpectedCharacter => "unexpected character"
  | unexpectedToken => "unexpected token"
  | incompleteInput => "incomplete input"
  | unclosedTagList => "unterminated type list"
  | unclosedBlock => "unterminated context map block"
  | undeclaredContext => "undeclared bounded context"

def all : List DiagnosticCode :=
  [unclosedComment, unexpectedCharacter, unexpectedToken, incompleteInput, unclosedTagList,
    unclosedBlock, undeclaredContext]

end DiagnosticCode

/-- A remark on a range of the source. The primary labels of a message mark what is wrong, the
others what explains it. -/
structure Label where
  span : Span
  text : String
  isPrimary : Bool
deriving DecidableEq, Repr

structure Diagnostic where
  severity : Severity
  code : Option DiagnosticCode
  message : String
  labels : List Label
  help : Option String
deriving DecidableEq, Repr

namespace Diagnostic

def primarySpan (d : Diagnostic) : Option Span :=
  (d.labels.find? Label.isPrimary).map Label.span

/-- One line such as `error[E100]: unexpected token`. -/
def text (d : Diagnostic) : String :=
  let code := match d.code with
    | some code => "[" ++ code.text ++ "]"
    | none => ""
  d.severity.text ++ code ++ ": " ++ d.message

/-- One line for several messages: the first one and the number of the others. -/
def summary : List Diagnostic → String
  | [] => ""
  | [d] => d.text
  | d :: ds => d.text ++ " (+" ++ toString ds.length ++ " more)"

end Diagnostic

end ContextDiagram
