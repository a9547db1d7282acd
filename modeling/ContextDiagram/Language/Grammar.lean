import ContextDiagram.Diagnostic
import ContextDiagram.Language.Combinator
import ContextDiagram.Language.Tree

namespace ContextDiagram.Language

open Source

namespace Parser

variable {α : Type}

def skipTrivia : Parser Unit :=
  discard (many (spanOf Token.isTrivia))

def symbol (t : Token) : Parser Span :=
  spanOf (· == t)

def separator : Parser Unit := do
  skipTrivia
  discard (symbol .comma)
  skipTrivia

def name : Parser (Located String) :=
  token fun
    | ⟨.identifier name, span⟩ => some ⟨name, span⟩
    | _ => none

def arrow : Parser (Located Direction) :=
  context (.expected .arrow) <| token fun
    | ⟨.arrow direction, span⟩ => some ⟨direction, span⟩
    | _ => none

def names (what : Expectation) : Parser (List (Located String)) := do
  skipTrivia
  let first ← context (.expected what) name
  let others ← many do
    separator
    commit (context (.expected what) name)
  return first :: others

def tagList : Parser (List (Located String)) := do
  let opened ← symbol .openBracket
  commit do
    let tags ← names .tag
    skipTrivia
    if (← opt (symbol .closeBracket)).isNone then
      throw (.final (.unclosed .tagList opened))
    return tags

def tags : Parser (List (Located String)) := do
  return (← opt tagList).getD []

def contains : Parser (List (Located String)) := do
  discard (symbol .contains)
  commit (names .contextName)

/-- A relationship, which must be one behind its arrow. -/
def relationship : Parser RelationshipClause := do
  let leading ← tags
  skipTrivia
  let source ← name
  skipTrivia
  let trailing ← tags
  skipTrivia
  let arrow ← arrow
  commit do
    skipTrivia
    let tags ← tags
    skipTrivia
    let target ← context (.expected .targetContext) name
    return { source := ⟨source, leading ++ trailing⟩, arrow := arrow, target := ⟨target, tags⟩ }

def statement : Parser Statement :=
  orElse (.contains <$> contains) (.relationship <$> relationship)

def block : Parser Block := do
  let keyword ← symbol .contextMap
  commit do
    skipTrivia
    let name ← opt name
    skipTrivia
    let opened ← context (.expected .blockStart) (symbol .openBrace)
    let statements ← many do
      skipTrivia
      statement
    skipTrivia
    if (← get).isEmpty then
      throw (.final (.unclosed .block opened))
    let closed ← context (.expected .statementOrBlockEnd) (symbol .closeBrace)
    return { span := keyword.union closed, name := name, statements := statements }

/-- The whole of a source:
```
document     = [ "ContextMap" [ name ] "{" statement* "}" ]
statement    = "contains" name ( "," name )*  |  relationship
relationship = [ tags ] name [ tags ] arrow [ tags ] name
tags         = "[" name ( "," name )* "]"
``` -/
def document : Parser Document := do
  skipTrivia
  let block ← opt block
  skipTrivia
  if !(← get).isEmpty then
    throw (.final (.expected (if block.isSome then .endOfMap else .contextMapBlock)))
  return ⟨block⟩

end Parser

/-- Why tokens form no document, and how many of them were left when this showed. -/
structure Fault where
  contexts : List Context
  remaining : Nat
deriving DecidableEq, Repr

def Document.ofLexemes (lexemes : List Lexeme) : Except Fault Document :=
  match Parser.document lexemes with
  | .ok document _ => .ok document
  | .error e rest => .error ⟨e.contexts, rest.length⟩

def endOfInput (lexemes : List Lexeme) : Span :=
  match lexemes.getLast? with
  | some last => .emptyAt last.span.stop
  | none => .emptyAt 0

/-- The place to point at for a fault: the next meaningful token, or the end of the input. -/
def offendingSpan (lexemes : List Lexeme) (next? : Option Lexeme) : Span :=
  (next?.map Lexeme.span).getD (endOfInput lexemes)

def unexpectedMessage (contexts : List Context) : String :=
  match contexts.filterMap Context.expected? with
  | [] => "unexpected token or end of input"
  | expected => " → ".intercalate (expected.map fun what => "expected " ++ what.text)

def explain (lexemes : List Lexeme) (contexts : List Context) (next? : Option Lexeme) :
    Diagnostic :=
  let span := offendingSpan lexemes next?
  match contexts.findSome? Context.unclosed? with
  | some (.tagList, opened) =>
    { severity := .error
      code := some .unclosedTagList
      message := "unterminated type list"
      labels := [⟨span, "expected `,` or `]`", true⟩, ⟨opened, "type list opened here", false⟩]
      help := some "close the type list with `]`" }
  | some (.block, opened) =>
    { severity := .error
      code := some .unclosedBlock
      message := "unterminated context map block"
      labels := [⟨span, "expected `\x7d`", true⟩, ⟨opened, "block opened here", false⟩]
      help := some "close the context map with `\x7d`" }
  | none =>
    { severity := .error
      code := some .unexpectedToken
      message := "unexpected token: " ++ unexpectedMessage contexts
      labels :=
        [⟨span, if next?.isNone then "unexpected end of input" else "unexpected token", true⟩]
      help := some "check syntax and token positioning" }

/-- The message about a fault. It points at the first token that was left and is neither blank nor
comment. -/
def Fault.diagnostic (lexemes : List Lexeme) (f : Fault) : Diagnostic :=
  explain lexemes f.contexts
    ((lexemes.drop (lexemes.length - f.remaining)).find? fun l => !l.isTrivia)

end ContextDiagram.Language
