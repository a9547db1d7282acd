import ContextDiagram.ContextMap
import ContextDiagram.Source.Span
import ContextDiagram.Text.Blank

namespace ContextDiagram.Language

open Source

inductive Token
  | contextMap
  | contains
  | identifier (name : String)
  | arrow (direction : Direction)
  | openBrace
  | closeBrace
  | openBracket
  | closeBracket
  | comma
  | blockComment (body : String)
  | lineComment (body : String)
  | blanks
  | newline
deriving DecidableEq, Repr

namespace Token

def isTrivia : Token → Bool
  | blockComment _ | lineComment _ | blanks | newline => true
  | _ => false

/-- The token in a message: as it is written, save that blanks are shown as one space and a line
end as an escape. -/
def text : Token → String
  | contextMap => "ContextMap"
  | contains => "contains"
  | identifier name => name
  | arrow direction => direction.text
  | openBrace => "\x7b"
  | closeBrace => "\x7d"
  | openBracket => "["
  | closeBracket => "]"
  | comma => ","
  | blockComment body => "/*" ++ body ++ "*/"
  | lineComment body => "//" ++ body
  | blanks => " "
  | newline => "\\n"

end Token

structure Lexeme where
  token : Token
  span : Span
deriving DecidableEq, Repr

def Lexeme.isTrivia (l : Lexeme) : Bool :=
  l.token.isTrivia

def meaningful (lexemes : List Lexeme) : List Lexeme :=
  lexemes.filter fun l => !l.isTrivia

def isWordStart (c : Char) : Bool :=
  c.isAlpha || c == '_'

def isWordChar (c : Char) : Bool :=
  c.isAlphanum || c == '_'

def isInlineBlank (c : Char) : Bool :=
  Text.isBlank c && c != '\n'

def Token.ofWord (word : List Char) : Token :=
  match String.ofList word with
  | "ContextMap" => .contextMap
  | "contains" => .contains
  | name => .identifier name

end ContextDiagram.Language
