import ContextDiagram.Language.Token

namespace ContextDiagram.Language

open Source

inductive Expectation
  | contextMapBlock
  | endOfMap
  | blockStart
  | statementOrBlockEnd
  | contextName
  | tag
  | arrow
  | targetContext
deriving DecidableEq, Repr

def Expectation.text : Expectation → String
  | contextMapBlock => "`ContextMap` block"
  | endOfMap => "end of input after the context map"
  | blockStart => "`\x7b` after context map name"
  | statementOrBlockEnd => "relationship, `contains` declaration or `\x7d`"
  | contextName => "bounded context name"
  | tag => "relationship type"
  | arrow => "arrow"
  | targetContext => "target context after arrow"

inductive Delimiter
  | block
  | tagList
deriving DecidableEq, Repr

inductive Context
  | expected (what : Expectation)
  | unclosed (delimiter : Delimiter) (opened : Span)
deriving DecidableEq, Repr

namespace Context

def expected? : Context → Option Expectation
  | expected what => some what
  | unclosed _ _ => none

def unclosed? : Context → Option (Delimiter × Span)
  | expected _ => none
  | unclosed delimiter opened => some (delimiter, opened)

end Context

namespace Parser

/-- A failure is final if nothing else may be tried in its place. The remarks on it are in the order
in which they were made. -/
structure Error where
  isFinal : Bool
  contexts : List Context
deriving DecidableEq, Repr

def Error.plain : Error where
  isFinal := false
  contexts := []

def Error.final (c : Context) : Error where
  isFinal := true
  contexts := [c]

end Parser

/-- Parsers of the tokens that are left. One that fails leaves them where it stopped. -/
abbrev Parser :=
  EStateM Parser.Error (List Lexeme)

namespace Parser

variable {α : Type}

def token (pick? : Lexeme → Option α) : Parser α := fun ls =>
  match ls with
  | [] => .error .plain []
  | l :: rest =>
    match pick? l with
    | some a => .ok a rest
    | none => .error .plain (l :: rest)

def spanOf (accepts : Token → Bool) : Parser Span :=
  token fun l => if accepts l.token then some l.span else none

def context (c : Context) (p : Parser α) : Parser α := fun ls =>
  match p ls with
  | .ok a rest => .ok a rest
  | .error e rest => .error { e with contexts := e.contexts ++ [c] } rest

/-- Makes all failures of a parser final. -/
def commit (p : Parser α) : Parser α := fun ls =>
  match p ls with
  | .ok a rest => .ok a rest
  | .error e rest => .error { e with isFinal := true } rest

/-- Tries a parser, which gives the tokens back if it fails. -/
def opt (p : Parser α) : Parser (Option α) := fun ls =>
  match p ls with
  | .ok a rest => .ok (some a) rest
  | .error e rest => if e.isFinal then .error e rest else .ok none ls

def orElse (p q : Parser α) : Parser α := fun ls =>
  match p ls with
  | .ok a rest => .ok a rest
  | .error e rest => if e.isFinal then .error e rest else q ls

/-- Repeats a parser until it fails, and gives back the tokens of the last attempt. A parser that
succeeds without a token cannot be repeated. -/
def many (p : Parser α) : Parser (List α) := fun ls =>
  match p ls with
  | .error e rest => if e.isFinal then .error e rest else .ok [] ls
  | .ok a rest =>
    if rest.length < ls.length then
      match many p rest with
      | .ok others rest => .ok (a :: others) rest
      | .error e rest => .error e rest
    else .error { isFinal := true, contexts := [] } rest
termination_by ls => ls.length

end Parser

end ContextDiagram.Language
