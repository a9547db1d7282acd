import ContextDiagram.Plane.Scalar

namespace ContextDiagram.Text

open Plane

structure Font (α : Type) where
  family : String
  size : α
  weight : Nat
deriving DecidableEq, Repr

def Font.standard [Scalar α] : Font α where
  family := "Arial"
  size := Scalar.ofNat 12
  weight := 400

/-- The extents of a text set in a font. How a font shapes its glyphs is not known here. -/
structure Measure (α : Type) where
  width : String → Font α → α
  height : String → Font α → α

namespace Measure

variable {α : Type}

def constant (width height : α) : Measure α where
  width _ _ := width
  height _ _ := height

def perCharacter [Scalar α] (width height : α) : Measure α where
  width text _ := Scalar.ofNat text.length * width
  height _ _ := height

def perByte [Scalar α] (width height : α) : Measure α where
  width text _ := Scalar.ofNat text.utf8ByteSize * width
  height _ _ := height

def ofTable [Scalar α] (table : List (String × α × α)) : Measure α where
  width text _ := ((table.lookup text).map (·.1)).getD Scalar.zero
  height text _ := ((table.lookup text).map (·.2)).getD Scalar.zero

/-- An estimate from the font size alone: half of it for a byte and a fifth more than it for a
line. -/
def estimate : Measure Float32 where
  width text font := Float32.ofNat text.utf8ByteSize * font.size * 0.5
  height _ font := font.size * 1.2

end Measure

end ContextDiagram.Text
