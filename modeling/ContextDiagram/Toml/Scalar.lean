import ContextDiagram.Number.Decimal
import ContextDiagram.Toml.Value

namespace ContextDiagram.Toml

def isHexDigit (c : Char) : Bool :=
  c.isDigit || ('a' ≤ c && c ≤ 'f') || ('A' ≤ c && c ≤ 'F')

def isGrouped (c : Char) : Bool :=
  c.isDigit || c == '_'

/-- Whether every underscore has a digit on both sides; `before` says whether what stands in front
of the text counts as one. -/
def underscoresFit (isDigit : Char → Bool) (before : Bool) : List Char → Bool
  | [] => true
  | '_' :: c :: rest => before && isDigit c && underscoresFit isDigit true rest
  | ['_'] => false
  | c :: rest => underscoresFit isDigit (isDigit c) rest

def baseValue (base : Nat) (cs : List Char) : Nat :=
  let digit (c : Char) :=
    if c.isDigit then c.toNat - '0'.toNat else c.toLower.toNat - 'a'.toNat + 10
  (cs.filter (· != '_')).foldl (fun n c => base * n + digit c) 0

def wholeNumber (n : Int) : Value :=
  if -Int.pow 2 127 ≤ n ∧ n < Int.pow 2 128 then .integer n else .illegible

/-- A number in a base other than ten. Without any digits it is illegible. -/
def based? (base : Nat) (isDigit : Char → Bool) (cs : List Char) : Option Value := do
  guard (cs.all fun c => isDigit c || c == '_')
  guard (underscoresFit isDigit false cs)
  return if cs.isEmpty then .illegible else wholeNumber (baseValue base cs)

/-- A whole number in base ten. Behind an underscore it may go on with more than digits, save
spaces, and is illegible then. The underscores may stand between letters that are digits in some
base. -/
def decimal? (negative : Bool) (cs : List Char) : Option Value := do
  let more := cs.dropWhile Char.isDigit
  guard (more.isEmpty || more.head? == some '_' && !more.contains ' ')
  guard (cs.length ≤ 1 || cs.head? != some '0')
  guard (underscoresFit isHexDigit false cs)
  let n : Int := baseValue 10 cs
  return if cs.all isGrouped then wholeNumber (if negative then -n else n) else .illegible

def takeGrouped? (cs : List Char) : Option (List Char × List Char) :=
  let digits := cs.takeWhile isGrouped
  if digits.any Char.isDigit then some (digits, cs.dropWhile isGrouped) else none

/-- A float in decimal digits, with no zero in front of its whole part. One that is too large is
illegible. -/
def float? (negative : Bool) (cs : List Char) : Option Value := do
  let (whole, rest) ← takeGrouped? cs
  guard ((whole.filter (· != '_')).length ≤ 1 || whole.head? != some '0')
  let (fraction, rest) ← match rest with
    | '.' :: rest => takeGrouped? rest
    | rest => some ([], rest)
  let (exponent, rest) : Int × List Char ← match rest with
    | c :: rest =>
      if c == 'e' || c == 'E' then
        let (below, rest) := match rest with
          | '-' :: rest => (true, rest)
          | '+' :: rest => (false, rest)
          | rest => (false, rest)
        let (digits, rest) ← takeGrouped? rest
        let n : Int := baseValue 10 digits
        pure (if below then -n else n, rest)
      else none
    | [] => some (0, [])
  guard rest.isEmpty
  guard (underscoresFit Char.isDigit false cs)
  let places := (fraction.filter (· != '_')).length
  let decimal : Number.Decimal := ⟨negative, baseValue 10 (whole ++ fraction), exponent - places⟩
  return if decimal.toDouble.isInf then .illegible else .float decimal.toDouble

def twoDigits? (low high : Nat) (tens ones : Char) : Option Nat :=
  if tens.isDigit && ones.isDigit then
    let n := Number.digitsValue [tens, ones]
    if low ≤ n && n ≤ high then some n else none
  else none

def isLeapYear (year : Nat) : Bool :=
  year % 4 == 0 && (year % 100 != 0 || year % 400 == 0)

def daysInMonth (year month : Nat) : Nat :=
  if month == 2 then
    if isLeapYear year then 29 else 28
  else if month == 4 || month == 6 || month == 9 || month == 11 then 30
  else 31

/-- What follows a date such as `1979-05-27`. -/
def afterDate? : List Char → Option (List Char)
  | a :: b :: c :: d :: '-' :: m :: m' :: '-' :: n :: n' :: rest => do
    if [a, b, c, d].all Char.isDigit then
      let month ← twoDigits? 1 12 m m'
      let _ ← twoDigits? 1 (daysInMonth (Number.digitsValue [a, b, c, d]) month) n n'
      return rest
    else none
  | _ => none

/-- What follows a time such as `07:32:00.5`; the seconds may be left out. -/
def afterTime? : List Char → Option (List Char)
  | h :: h' :: ':' :: m :: m' :: ':' :: s :: s' :: rest => do
    let _ ← twoDigits? 0 23 h h'
    let _ ← twoDigits? 0 59 m m'
    let _ ← twoDigits? 0 60 s s'
    match rest with
    | '.' :: rest =>
      if (rest.takeWhile Char.isDigit).isEmpty then none else some (rest.dropWhile Char.isDigit)
    | rest => some rest
  | h :: h' :: ':' :: m :: m' :: rest => do
    let _ ← twoDigits? 0 23 h h'
    let _ ← twoDigits? 0 59 m m'
    return rest
  | _ => none

def isOffset : List Char → Bool
  | [] => true
  | ['Z'] | ['z'] => true
  | [sign, h, h', ':', m, m'] =>
    (sign == '+' || sign == '-') && (twoDigits? 0 23 h h').isSome && (twoDigits? 0 59 m m').isSome
  | _ => false

def dateTime? (cs : List Char) : Option Value :=
  match afterDate? cs with
  | some [] => some .dateTime
  | some (delimiter :: rest) =>
    if delimiter == 'T' || delimiter == 't' || delimiter == ' ' then
      match afterTime? rest with
      | some offset => if isOffset offset then some .dateTime else none
      | none => none
    else none
  | none => if afterTime? cs == some [] then some .dateTime else none

def number? (signed negative : Bool) (cs : List Char) : Option Value :=
  match cs with
  | '0' :: 'x' :: rest => if signed then none else based? 16 isHexDigit rest
  | '0' :: 'o' :: rest => if signed then none else based? 8 (fun c => '0' ≤ c && c ≤ '7') rest
  | '0' :: 'b' :: rest => if signed then none else based? 2 (fun c => c == '0' || c == '1') rest
  | '0' :: 'X' :: _ | '0' :: 'O' :: _ | '0' :: 'B' :: _ | '0' :: 'd' :: _ | '0' :: 'D' :: _ => none
  | cs =>
    match cs.dropWhile Char.isDigit with
    | '-' :: _ | ':' :: _ => if signed then none else dateTime? cs
    | rest =>
      if rest.any fun c => c == '.' || c == 'e' || c == 'E' then float? negative cs
      else decimal? negative cs

def signedNumber? (signed negative : Bool) (cs : List Char) : Option Value :=
  let infinity : Float := 1 / 0
  match cs with
  | ['i', 'n', 'f'] => some (.float (if negative then -infinity else infinity))
  | ['n', 'a', 'n'] => some (.float (infinity - infinity))
  | c :: _ => if c.isDigit then number? signed negative cs else none
  | [] => none

def scalar? (cs : List Char) : Option Value :=
  match cs with
  | ['t', 'r', 'u', 'e'] => some (.boolean true)
  | ['f', 'a', 'l', 's', 'e'] => some (.boolean false)
  | '-' :: rest => signedNumber? true true rest
  | '+' :: rest => signedNumber? true false rest
  | cs => signedNumber? false false cs

def isWordChar (c : Char) : Bool :=
  !([' ', '\t', '\r', '\n', '#', '=', ',', '[', ']', '\x7b', '\x7d'].contains c)

/-- Whether a word goes on behind blanks. It does not with a point or with a quote, where another
text would begin. -/
def goesOn (cs : List Char) : Bool :=
  match cs.dropWhile fun c => c == ' ' || c == '\t' with
  | c :: _ => isWordChar c && c != '.' && c != '"' && c != '\''
  | [] => false

/-- The word at the front, with the blanks inside it: one may stand between a date and a time. -/
def splitWord : List Char → List Char × List Char
  | [] => ([], [])
  | c :: rest =>
    if isWordChar c || (c == ' ' || c == '\t') && goesOn rest then
      let (word, rest) := splitWord rest
      (c :: word, rest)
    else ([], c :: rest)

end ContextDiagram.Toml
