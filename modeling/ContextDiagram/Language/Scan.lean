import ContextDiagram.Diagnostic
import ContextDiagram.Language.Token
import ContextDiagram.Text.Comment

namespace ContextDiagram.Language

open Source

/-- What a text begins with: a token that is written as `taken`, a comment without an end, or no
token. -/
inductive Beginning
  | token (token : Token) (taken rest : List Char)
  | unclosedComment
  | nothing
deriving Repr

/-- The longest token that a text begins with. -/
def beginning : List Char → Beginning
  | '/' :: '*' :: rest =>
    match Text.splitAtCommentEnd rest with
    | some (body, after) =>
      .token (.blockComment (String.ofList body)) ('/' :: '*' :: (body ++ ['*', '/'])) after
    | none => .unclosedComment
  | '/' :: '/' :: rest =>
    let body := rest.takeWhile (· != '\n')
    .token (.lineComment (String.ofList body)) ('/' :: '/' :: body) (rest.dropWhile (· != '\n'))
  | '<' :: '-' :: '>' :: rest => .token (.arrow .toBoth) ['<', '-', '>'] rest
  | '-' :: '>' :: rest => .token (.arrow .toTarget) ['-', '>'] rest
  | '<' :: '-' :: rest => .token (.arrow .toSource) ['<', '-'] rest
  | '{' :: rest => .token .openBrace ['{'] rest
  | '}' :: rest => .token .closeBrace ['}'] rest
  | '[' :: rest => .token .openBracket ['['] rest
  | ']' :: rest => .token .closeBracket [']'] rest
  | ',' :: rest => .token .comma [','] rest
  | '\n' :: rest => .token .newline ['\n'] rest
  | c :: rest =>
    if isWordStart c then
      let word := c :: rest.takeWhile isWordChar
      .token (.ofWord word) word (rest.dropWhile isWordChar)
    else if isInlineBlank c then
      .token .blanks (c :: rest.takeWhile isInlineBlank) (rest.dropWhile isInlineBlank)
    else
      .nothing
  | [] => .nothing

theorem beginning_eq_append {cs taken rest : List Char} {t : Token}
    (h : beginning cs = .token t taken rest) : cs = taken ++ rest := by
  unfold beginning at h
  split at h
  case h_1 =>
    split at h
    · next hs =>
      cases h
      simp [Text.splitAtCommentEnd_eq_append hs]
    · cases h
  case h_12 =>
    split at h
    · cases h
      simp
    · split at h
      · cases h
        simp
      · cases h
  case h_13 => cases h
  all_goals
    cases h
    simp

theorem taken_ne_nil_of_beginning {cs taken rest : List Char} {t : Token}
    (h : beginning cs = .token t taken rest) : taken ≠ [] := by
  unfold beginning at h
  split at h
  case h_1 =>
    split at h
    · cases h
      simp
    · cases h
  case h_12 =>
    split at h
    · cases h
      simp
    · split at h
      · cases h
        simp
      · cases h
  case h_13 => cases h
  all_goals
    cases h
    simp

theorem length_lt_of_beginning {cs taken rest : List Char} {t : Token}
    (h : beginning cs = .token t taken rest) : rest.length < cs.length := by
  have := List.length_pos_iff.2 (taken_ne_nil_of_beginning h)
  rw [beginning_eq_append h, List.length_append]
  omega

inductive Piece
  | lexeme (lexeme : Lexeme)
  | unexpectedCharacter (offset : Nat)
  | unclosedComment (span : Span)
deriving DecidableEq, Repr

/-- The pieces of a text that starts at a byte offset. After a character that begins no token the
scan goes on with the next character; an unclosed comment takes all that is left. -/
def pieces (offset : Nat) (cs : List Char) : List Piece :=
  match cs with
  | [] => []
  | c :: cs' =>
    match _ : beginning (c :: cs') with
    | .token token taken rest =>
      let stop := offset + byteLength taken
      .lexeme ⟨token, .between offset stop⟩ :: pieces stop rest
    | .unclosedComment => [.unclosedComment (.between offset (offset + byteLength (c :: cs')))]
    | .nothing => .unexpectedCharacter offset :: pieces (offset + c.utf8Size) cs'
termination_by cs.length
decreasing_by
  · exact length_lt_of_beginning ‹_›
  · simp

def Piece.lexeme? : Piece → Option Lexeme
  | lexeme l => some l
  | _ => none

/-- The message about a piece that is not a token. A character that begins no token is marked by
its first byte. -/
def Piece.diagnostic? : Piece → Option Diagnostic
  | lexeme _ => none
  | unexpectedCharacter offset => some
    { severity := .error
      code := some .unexpectedCharacter
      message := "unexpected character"
      labels :=
        [⟨.between offset (offset + 1), DiagnosticCode.unexpectedCharacter.description, true⟩]
      help := some "arrows are written `->`, `<-` or `<->`" }
  | unclosedComment span => some
    { severity := .error
      code := some .unclosedComment
      message := "unterminated block comment"
      labels := [⟨span, DiagnosticCode.unclosedComment.description, true⟩]
      help := some "add closing `*/`" }

def scan (source : String) : Except (List Diagnostic) (List Lexeme) :=
  let parts := pieces 0 source.toList
  match parts.filterMap Piece.diagnostic? with
  | [] => .ok (parts.filterMap Piece.lexeme?)
  | diagnostics => .error diagnostics

end ContextDiagram.Language
