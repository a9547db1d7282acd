import ContextDiagram.Number.Binary

namespace ContextDiagram.Toml

/-- Nothing here asks for the time of a date-time, so none is kept. A word that begins like a
number and is none, or is one that is too large, is illegible: a fault only where its value is
asked for. -/
inductive Value
  | string (s : String)
  | integer (n : Int)
  | float (x : Float)
  | boolean (b : Bool)
  | dateTime
  | illegible
  | array (items : List Value)
  | table (entries : List (String × Value))
deriving Repr

/-- Keys are unique in a table. -/
abbrev Table := List (String × Value)

namespace Value

/-- A number in single precision. Integers count as far as 64 bits go, with a sign or without. -/
def single? : Value → Option Float32
  | integer n => if -Int.pow 2 63 ≤ n ∧ n < Int.pow 2 64 then some (Float32.ofInt n) else none
  | float x => some (Number.narrow x)
  | _ => none

def word? : Value → Option Nat
  | integer n => if 0 ≤ n ∧ n < Int.pow 2 16 then some n.toNat else none
  | _ => none

def string? : Value → Option String
  | string s => some s
  | _ => none

mutual

def isLegible : Value → Bool
  | illegible => false
  | array items => areLegible items
  | table entries => areLegibleEntries entries
  | _ => true

def areLegible : List Value → Bool
  | [] => true
  | v :: rest => v.isLegible && areLegible rest

def areLegibleEntries : List (String × Value) → Bool
  | [] => true
  | (_, v) :: rest => v.isLegible && areLegibleEntries rest

end

/-- The fields of a record that has some names. It is given as a table, in which other names are
passed over if their values are legible; as an array, in the order of the names and without regard
to further items; or as a date-time, which has none of the names. -/
def record? (names : List String) : Value → Option Table
  | table entries =>
    if areLegibleEntries (entries.filter fun entry => !names.contains entry.1) then some entries
    else none
  | array items => some (names.zip items)
  | dateTime => some []
  | _ => none

end Value

end ContextDiagram.Toml
