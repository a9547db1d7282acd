import ContextDiagram.Colour.Basic
import ContextDiagram.Colour.Name
import ContextDiagram.Number.Decimal
import ContextDiagram.Text.Blank
import ContextDiagram.Text.Comment

namespace ContextDiagram.Colour

inductive Fault
  | wrongDigitCount
  | unknownForm
  | unknownName
  | expectedArguments
  | expectedComma
  | expectedClosing
  | expectedEnd
  | unknownComponent
  | unknownAngle
  | unknownAngleUnit
  | expectedSpace
  | unknownSpace
deriving DecidableEq, Repr

def Fault.text : Fault → String
  | wrongDigitCount => "wrong number of hex digits"
  | unknownForm => "unknown color syntax"
  | unknownName => "unknown color identifier"
  | expectedArguments => "expected arguments"
  | expectedComma => "expected comma"
  | expectedClosing => "expected closing parenthesis"
  | expectedEnd => "expected end of string"
  | unknownComponent => "unknown color component"
  | unknownAngle => "unknown angle"
  | unknownAngleUnit => "unknown angle dimension"
  | expectedSpace => "expected color space identifier"
  | unknownSpace => "unknown color space"

abbrev Reader := StateT (List Char) (Except Fault)

def isFillingBlank (c : Char) : Bool :=
  c == ' ' || c == '\t' || c == '\r' || c == '\n'

/-- The text without the comments at its front, and without the blanks there if they count. A
comment that is never closed stays. -/
def skipFiller (isFiller : Char → Bool) (cs : List Char) : List Char :=
  match cs with
  | [] => []
  | '/' :: '*' :: rest =>
    match _ : Text.splitAtCommentEnd rest with
    | some (_, after) => skipFiller isFiller after
    | none => '/' :: '*' :: rest
  | c :: rest => if isFiller c then skipFiller isFiller rest else c :: rest
termination_by cs.length
decreasing_by
  · have := Text.length_lt_of_splitAtCommentEnd ‹_›
    simp only [List.length_cons]
    omega
  · simp

def takeChar (c : Char) : Reader Bool := do
  match ← get with
  | d :: rest =>
    if d == c then
      set rest
      return true
    else return false
  | [] => return false

/-- Whether a character stands behind comments, which are then taken with it. An unclosed comment is
no slash. -/
def takeCommented (c : Char) : Reader Bool := do
  modify (skipFiller fun _ => false)
  match ← get with
  | '/' :: '*' :: _ => return false
  | _ => takeChar c

def takeMark (c : Char) : Reader Bool := do
  modify (skipFiller isFillingBlank)
  takeCommented c

def takeDigits : Reader (List Char) := do
  let cs ← get
  set (cs.dropWhile Char.isDigit)
  return cs.takeWhile Char.isDigit

def takeSign : Reader Bool := do
  if ← takeChar '-' then return true
  let _ ← takeChar '+'
  return false

/-- The exponent of a number, or 0 if no digits follow the letter. -/
def takeExponent : Reader Int := do
  let before ← get
  match before with
  | c :: rest =>
    if c == 'e' || c == 'E' then
      set rest
      let negative ← takeSign
      let digits ← takeDigits
      if digits.isEmpty then
        set before
        return 0
      let exponent : Int := Number.digitsValue digits
      return if negative then -exponent else exponent
    else return 0
  | [] => return 0

/-- The digits behind a point, which counts only before a digit. -/
def takeFraction : Reader (List Char) := do
  match ← get with
  | '.' :: c :: rest =>
    if c.isDigit then
      set (c :: rest)
      takeDigits
    else return []
  | _ => return []

def takeNumber : Reader (Option Float) := do
  let before ← get
  let negative ← takeSign
  let whole ← takeDigits
  let fraction ← takeFraction
  if whole.isEmpty && fraction.isEmpty then
    set before
    return none
  let exponent ← takeExponent
  let decimal : Number.Decimal :=
    ⟨negative, Number.digitsValue (whole ++ fraction), exponent - fraction.length⟩
  return some decimal.toDouble

/-- The length of the longest beginning made of letters, `_`, `-` and digits, where a digit stands
neither first nor after a leading `-`. -/
def identifierLength : List Char → Nat
  | [] => 0
  | first :: rest =>
    let isLetter (c : Char) := c.isAlpha || c == '_' || c == '-'
    if !isLetter first then 0
    else
      match rest with
      | [] => 1
      | second :: rest =>
        if isLetter second || (first != '-' && second.isDigit) then
          2 + (rest.takeWhile fun c => isLetter c || c.isDigit).length
        else 1

/-- An identifier, if one stands at the front, in lower case. A single `-` is none, nor is anything
that begins with two. -/
def takeIdentifier : Reader (Option String) := do
  let cs ← get
  match cs.take (identifierLength cs) with
  | [] => return none
  | ['-'] => return none
  | '-' :: '-' :: _ => return none
  | found =>
    set (cs.drop found.length)
    return some (String.ofList (found.map Char.toLower))

inductive Value
  | number (n : Float)
  | percentage (n : Float)
  | dimension (n : Float) (unit : String)
  | identifier (name : String)

def takeValue : Reader (Option Value) := do
  modify (skipFiller isFillingBlank)
  match ← takeNumber with
  | none => return (← takeIdentifier).map .identifier
  | some n =>
    if ← takeChar '%' then return some (.percentage n)
    match ← takeIdentifier with
    | some unit => return some (.dimension n unit)
    | none => return some (.number n)

/-- A component: a number or a percentage, each times its own factor, or `none`. -/
def takeComponent (factor percentFactor : Float) : Reader (Option Float) := do
  match ← takeValue with
  | some (.number n) => return some (n * factor)
  | some (.percentage n) => return some (n * percentFactor)
  | some (.identifier "none") => return none
  | _ => throw .unknownComponent

def takeAngle : Reader (Option Float) := do
  match ← takeValue with
  | some (.number n) => return some n
  | some (.identifier "none") => return none
  | some (.dimension n unit) =>
    match unit with
    | "deg" => return some n
    | "rad" => return some (n * 57.29577951308232)
    | "grad" => return some (n * 0.9)
    | "turn" => return some (n * 360)
    | _ => throw .unknownAngleUnit
  | _ => throw .unknownAngle

def clampTo (high x : Float) : Float :=
  if x < 0 then 0 else if high < x then high else x

def atLeastZero (x : Float) : Float :=
  if 0 < x then x else 0

def takeAlpha (hasCommas : Bool) : Reader (Option Float) := do
  if ← takeMark (if hasCommas then ',' else '/') then
    return (← takeComponent 1 0.01).map (clampTo 1)
  return some 1

/-- With commas, one must stand between the second component and the third. -/
def takeSeparator (hasCommas : Bool) : Reader Unit := do
  if hasCommas then
    if !(← takeMark ',') then throw .expectedComma

def takeOpening : Reader Unit := do
  if !(← takeChar '(') then throw .expectedArguments

def takeClosing : Reader Unit := do
  if !(← takeMark ')') then throw .expectedClosing

def keep (c : Option Float) : Component :=
  c.map Number.narrow

/-- Three components and alpha in parentheses. A comma behind the first component, which is looked
for by `firstComma`, calls for commas throughout. -/
def takeArguments (form : Form) (firstComma : Reader Bool)
    (first second third : Reader (Option Float)) : Reader Colour := do
  takeOpening
  let a ← first
  let hasCommas ← firstComma
  let b ← second
  takeSeparator hasCommas
  let c ← third
  let alpha ← takeAlpha hasCommas
  takeClosing
  return .function form (keep a) (keep b) (keep c) (keep alpha)

def takeRgb : Reader Colour :=
  let part := do return (← takeComponent (1 / 255) 0.01).map (clampTo 1)
  takeArguments .rgb (takeMark ',') part part part

/-- No blank may stand between a hue and a comma. -/
def takeHsl : Reader Colour :=
  takeArguments .hsl (takeCommented ',') takeAngle
    (do return (← takeComponent 1 1).map atLeastZero) (takeComponent 1 1)

def takeHwb : Reader Colour :=
  takeArguments .hwb (pure false) takeAngle (takeComponent 1 1) (takeComponent 1 1)

/-- Lightness up to `high`, and two axes of which a hundred percent are `axis` hundreds. -/
def takeLab (form : Form) (high axis : Float) : Reader Colour :=
  takeArguments form (pure false) (do return (← takeComponent 1 (high * 0.01)).map (clampTo high))
    (takeComponent 1 axis) (takeComponent 1 axis)

def takeLch (form : Form) (high axis : Float) : Reader Colour :=
  takeArguments form (pure false) (do return (← takeComponent 1 (high * 0.01)).map (clampTo high))
    (do return (← takeComponent 1 axis).map atLeastZero) takeAngle

def takeInSpace : Reader Colour := do
  takeOpening
  modify (skipFiller isFillingBlank)
  match ← takeIdentifier with
  | none => throw .expectedSpace
  | some name =>
    match Space.ofName? name with
    | none => throw .unknownSpace
    | some space =>
      let a ← takeComponent 1 0.01
      let b ← takeComponent 1 0.01
      let c ← takeComponent 1 0.01
      let alpha ← takeAlpha false
      takeClosing
      return .function (.inSpace space) (keep a) (keep b) (keep c) (keep alpha)

def hexDigit? (c : Char) : Option Nat :=
  if c.isDigit then some (c.toNat - '0'.toNat)
  else if 'a' ≤ c ∧ c ≤ 'f' then some (c.toNat - 'a'.toNat + 10)
  else if 'A' ≤ c ∧ c ≤ 'F' then some (c.toNat - 'A'.toNat + 10)
  else none

def leadingHexDigits : List Char → List Nat
  | [] => []
  | c :: cs =>
    match hexDigit? c with
    | some d => d :: leadingHexDigits cs
    | none => []

def byteComponent (high low : Nat) : Component :=
  some (Float32.ofNat (16 * high + low) * (1 / 255))

/-- Up to eight hexadecimal digits; single ones are doubled. -/
def takeHex : Reader Colour := do
  let digits := (leadingHexDigits (← get)).take 8
  modify (·.drop digits.length)
  match digits with
  | [r, g, b] =>
    return .function .rgb (byteComponent r r) (byteComponent g g) (byteComponent b b) (some 1)
  | [r, g, b, a] =>
    return .function .rgb (byteComponent r r) (byteComponent g g) (byteComponent b b)
      (byteComponent a a)
  | [r, r', g, g', b, b'] =>
    return .function .rgb (byteComponent r r') (byteComponent g g') (byteComponent b b') (some 1)
  | [r, r', g, g', b, b', a, a'] =>
    return .function .rgb (byteComponent r r') (byteComponent g g') (byteComponent b b')
      (byteComponent a a')
  | _ => throw .wrongDigitCount

def takeColour : Reader Colour := do
  if ← takeChar '#' then
    takeHex
  else
    match ← takeIdentifier with
    | none => throw .unknownForm
    | some "rgb" | some "rgba" => takeRgb
    | some "hsl" | some "hsla" => takeHsl
    | some "hwb" => takeHwb
    | some "lab" => takeLab .lab 100 1.25
    | some "lch" => takeLch .lch 100 1.25
    | some "oklab" => takeLab .oklab 1 0.004
    | some "oklch" => takeLch .oklch 1 0.004
    | some "color" => takeInSpace
    | some name => if names.contains name then return .named name else throw .unknownName

def read (s : String) : Except Fault Colour := do
  let (colour, rest) ← takeColour.run (Text.trimBlank s.toList)
  if rest.isEmpty then return colour else throw .expectedEnd

def Fault.message (source : String) (f : Fault) : String :=
  "invalid color `" ++ source ++ "`: " ++ f.text

end ContextDiagram.Colour
