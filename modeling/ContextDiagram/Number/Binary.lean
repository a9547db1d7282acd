namespace ContextDiagram.Number

/-- A binary format: the bits of its significand, the implicit one counted, and of its exponent. -/
structure BinaryFormat where
  precision : Nat
  exponentBits : Nat
deriving DecidableEq, Repr

/-- What a bit pattern stands for; a finite number is `± significand * 2 ^ exponent`. -/
inductive Datum
  | nan
  | infinite (negative : Bool)
  | finite (negative : Bool) (significand : Nat) (exponent : Int)
deriving DecidableEq, Repr

namespace BinaryFormat

def single : BinaryFormat := ⟨24, 8⟩

def double : BinaryFormat := ⟨53, 11⟩

def topField (f : BinaryFormat) : Nat :=
  Nat.pow 2 f.exponentBits - 1

def fractionRange (f : BinaryFormat) : Nat :=
  Nat.pow 2 (f.precision - 1)

/-- The exponent of the last bit of the smallest numbers. -/
def leastExponent (f : BinaryFormat) : Int :=
  3 - Int.pow 2 (f.exponentBits - 1) - f.precision

def decode (f : BinaryFormat) (bits : Nat) : Datum :=
  let fraction := bits % f.fractionRange
  let field := bits / f.fractionRange % Nat.pow 2 f.exponentBits
  let negative := bits / f.fractionRange / Nat.pow 2 f.exponentBits % 2 == 1
  if field = f.topField then
    if fraction = 0 then .infinite negative else .nan
  else if field = 0 then
    .finite negative fraction f.leastExponent
  else
    .finite negative (f.fractionRange + fraction) (f.leastExponent + (field - 1))

/-- `n / 2 ^ places`, rounded to the nearest integer and to the even one of two as near. -/
def roundShift (n places : Nat) : Nat :=
  let unit := Nat.pow 2 places
  let quotient := n / unit
  let twice := 2 * (n % unit)
  if unit < twice || (unit == twice && quotient % 2 == 1) then quotient + 1
  else quotient

/-- The pattern, without a sign, of the number nearest to `significand * 2 ^ exponent`; too large a
number becomes infinite. A significand that rounding carries to the next power of two moves on to
the next exponent field by itself. -/
def nearest (f : BinaryFormat) (significand : Nat) (exponent : Int) : Nat :=
  if significand = 0 then 0
  else
    let places := max ((significand.log2 : Int) + 1 - f.precision) (f.leastExponent - exponent)
    let rounded := roundShift (significand * Nat.pow 2 (-places).toNat) places.toNat
    min (rounded + (exponent + places - f.leastExponent).toNat * f.fractionRange)
      (f.topField * f.fractionRange)

def encode (f : BinaryFormat) (d : Datum) : Nat :=
  let sign (negative : Bool) := if negative then Nat.pow 2 f.exponentBits * f.fractionRange else 0
  match d with
  | .nan => f.topField * f.fractionRange + f.fractionRange / 2
  | .infinite negative => sign negative + f.topField * f.fractionRange
  | .finite negative significand exponent => sign negative + f.nearest significand exponent

end BinaryFormat

open BinaryFormat

def datum (x : Float32) : Datum :=
  single.decode x.toBits.toNat

def widen (x : Float32) : Float :=
  Float.ofBits (UInt64.ofNat (double.encode (datum x)))

def narrow (x : Float) : Float32 :=
  Float32.ofBits (UInt32.ofNat (single.encode (double.decode x.toBits.toNat)))

/-- The greatest integer that is not above the number; the sign of zero is kept. -/
def floor (x : Float32) : Float32 :=
  match datum x with
  | .finite negative significand (.negSucc places) =>
    let divisor := Nat.pow 2 (places + 1)
    let whole := if negative then (significand + divisor - 1) / divisor else significand / divisor
    Float32.ofBits (UInt32.ofNat (single.encode (.finite negative whole 0)))
  | _ => x

/-- The length of the vector `(x, y)`: the sum of squares and its root are taken in double precision
and the result is rounded once more. An infinite argument makes it infinite, whatever the other. -/
def hypotenuse (x y : Float32) : Float32 :=
  if x.isInf || y.isInf then
    Float32.ofBits (UInt32.ofNat (single.encode (.infinite false)))
  else
    let wide := widen x
    let high := widen y
    narrow (wide * wide + high * high).sqrt

end ContextDiagram.Number
