import ContextDiagram.Number.Binary

namespace ContextDiagram.Number

/-- A positive number with the interval of reals that round to it, in quarters of its last bit, so
that the ends of the interval are whole numbers. -/
structure Rounding where
  low : Nat
  value : Nat
  high : Nat
  /-- Whether the ends of the interval belong to it. -/
  closed : Bool
deriving DecidableEq, Repr

/-- The interval of `significand * 2 ^ exponent`. Below a power of two the numbers lie twice as
dense, unless their exponent is the least one already. -/
def Rounding.of (f : BinaryFormat) (significand : Nat) (exponent : Int) : Rounding where
  low := 4 * significand -
    if significand = f.fractionRange && exponent != f.leastExponent then 1 else 2
  value := 4 * significand
  high := 4 * significand + 2
  closed := significand % 2 == 0

def Rounding.admits (r : Rounding) (unit n : Nat) : Bool :=
  if r.closed then r.low * unit ≤ n && n ≤ r.high * unit
  else r.low * unit < n && n < r.high * unit

/-- The point nearest to the number among those of the grid `10 ^ place` that round to it, as a
multiple of the grid width; of two as near the larger one. `quarter` is the exponent of a quarter of
the last bit. -/
def Rounding.onGrid? (r : Rounding) (quarter place : Int) : Option Nat :=
  let width := Nat.pow 10 place.toNat * Nat.pow 2 (-quarter).toNat
  let unit := Nat.pow 2 quarter.toNat * Nat.pow 10 (-place).toNat
  let below := r.value * unit / width
  let above := below + 1
  match r.admits unit (below * width), r.admits unit (above * width) with
  | false, false => none
  | true, false => some below
  | false, true => some above
  | true, true =>
    if r.value * unit - below * width < above * width - r.value * unit then some below
    else some above

/-- The decimal places to try, coarsest first: every single precision number lies below `10 ^ 39`,
and nine digits suffice for the smallest. -/
def places : List Int :=
  (List.range 100).map fun (i : Nat) => 39 - (i : Int)

/-- The digits and the place of the last one of the shortest decimal that reads back as the single
precision number `significand * 2 ^ exponent`. The coarsest decimal grid with a point in the
interval of the number gives the digits; such a point is one of the number's two neighbours. -/
def shortest (significand : Nat) (exponent : Int) : Nat × Int :=
  let r := Rounding.of .single significand exponent
  let found := places.findSome? fun place =>
    (r.onGrid? (exponent - 2) place).map fun n => (n, place)
  found.getD (0, 0)

/-- The decimal `digits * 10 ^ place` in positional notation. -/
def positional (digits : Nat) (place : Int) : String :=
  let ds := Nat.toDigits 10 digits
  if 0 ≤ place then
    String.ofList (ds ++ List.replicate place.toNat '0')
  else
    let scale := (-place).toNat
    let ds := List.replicate (scale + 1 - ds.length) '0' ++ ds
    String.ofList (ds.take (ds.length - scale) ++ '.' :: ds.drop (ds.length - scale))

def text (x : Float32) : String :=
  match datum x with
  | .nan => "NaN"
  | .infinite negative => if negative then "-inf" else "inf"
  | .finite negative significand exponent =>
    let magnitude :=
      if significand = 0 then "0"
      else
        let (digits, place) := shortest significand exponent
        positional digits place
    if negative then "-" ++ magnitude else magnitude

end ContextDiagram.Number
