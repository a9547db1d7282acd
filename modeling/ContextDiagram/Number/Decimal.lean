import ContextDiagram.Number.Binary

namespace ContextDiagram.Number

/-- The number `± digits * 10 ^ exponent`. -/
structure Decimal where
  negative : Bool
  digits : Nat
  exponent : Int
deriving DecidableEq, Repr

namespace Decimal

/-- The nearest number of double precision; zero keeps its sign. -/
def toDouble (d : Decimal) : Float :=
  let magnitude := Float.ofScientific d.digits (d.exponent < 0) d.exponent.natAbs
  if d.negative then -magnitude else magnitude

/-- The nearest number of double precision, rounded to single precision. -/
def toSingle (d : Decimal) : Float32 :=
  narrow d.toDouble

end Decimal

/-- The value of decimal digits, most significant first; other characters count as their distance
from `0`. -/
def digitsValue (cs : List Char) : Nat :=
  cs.foldl (fun n c => 10 * n + (c.toNat - '0'.toNat)) 0

end ContextDiagram.Number
