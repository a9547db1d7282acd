import ContextDiagram.Number.Shortest

namespace ContextDiagram

namespace Colour

inductive Space
  | srgb
  | srgbLinear
  | displayP3
  | a98Rgb
  | prophotoRgb
  | rec2020
  | xyzD50
  | xyzD65
deriving DecidableEq, Repr

namespace Space

def text : Space → String
  | srgb => "srgb"
  | srgbLinear => "srgb-linear"
  | displayP3 => "display-p3"
  | a98Rgb => "a98-rgb"
  | prophotoRgb => "prophoto-rgb"
  | rec2020 => "rec2020"
  | xyzD50 => "xyz-d50"
  | xyzD65 => "xyz-d65"

def ofName? : String → Option Space
  | "srgb" => some srgb
  | "srgb-linear" => some srgbLinear
  | "display-p3" => some displayP3
  | "a98-rgb" => some a98Rgb
  | "prophoto-rgb" => some prophotoRgb
  | "rec2020" => some rec2020
  | "xyz-d50" => some xyzD50
  | "xyz" => some xyzD65
  | "xyz-d65" => some xyzD65
  | _ => none

end Space

inductive Form
  | rgb
  | hsl
  | hwb
  | lab
  | lch
  | oklab
  | oklch
  | inSpace (space : Space)
deriving DecidableEq, Repr

/-- A part of a colour; the keyword `none` leaves it open. -/
abbrev Component := Option Float32

def Component.value (c : Component) : Float32 :=
  c.getD 0

def Component.scale (factor : Float32) (c : Component) : Component :=
  c.map (· * factor)

def Component.text : Component → String
  | none => "none"
  | some x => Number.text x

end Colour

open Colour in
inductive Colour
  | named (name : String)
  | function (form : Form) (first second third alpha : Component)
deriving Repr

namespace Colour

def black : Colour :=
  named "black"

def white : Colour :=
  named "white"

def alpha : Colour → Float32
  | named name => if name == "transparent" then 0 else 1
  | function _ _ _ _ alpha => alpha.value

/-- The smaller of two numbers: the other one if one is not a number. -/
def smaller (x y : Float32) : Float32 :=
  if x.isNaN || y < x then y else x

def clampUnit (x : Float32) : Float32 :=
  if x < -1 then -1 else if 1 < x then 1 else x

/-- The part of a colour of given hue, saturation and lightness that stands `offset` twelfths of the
colour circle from red. -/
def hslPart (hue saturation lightness offset : Float32) : Float32 :=
  let light := lightness * 0.01
  let reach := saturation * 0.01 * smaller light (1 - light)
  let turned := offset + hue * (1 / 30)
  let sector := turned - 12 * Number.floor (turned * (1 / 12))
  light - reach * clampUnit (smaller (sector - 3) (9 - sector))

def hslToRgb (hue saturation lightness : Float32) : Float32 × Float32 × Float32 :=
  (hslPart hue saturation lightness 0, hslPart hue saturation lightness 8,
    hslPart hue saturation lightness 4)

/-- Red, green and blue of a colour given by hue, whiteness and blackness. If the last two exceed
the whole, the colour is grey. -/
def hwbToRgb (hue whiteness blackness : Float32) : Float32 × Float32 × Float32 :=
  let white := whiteness * 0.01
  let black := blackness * 0.01
  if 1 ≤ white + black then
    let grey := white / (white + black)
    (grey, grey, grey)
  else
    let mix (part : Float32) := white + part * (1 - white - black)
    let (red, green, blue) := hslToRgb hue 100 50
    (mix red, mix green, mix blue)

def rgbText (red green blue alpha : Component) : String :=
  let part (c : Component) := (c.scale 255).text
  let parts := part red ++ ", " ++ part green ++ ", " ++ part blue
  if alpha.value < 1 then "rgba(" ++ parts ++ ", " ++ alpha.text ++ ")"
  else "rgb(" ++ parts ++ ")"

/-- A colour with its components between blanks; `opening` ends in what stands before the first. -/
def plainText (opening : String) (first second third alpha : Component) : String :=
  let parts := first.text ++ " " ++ second.text ++ " " ++ third.text
  let tail := if alpha.value < 1 then " / " ++ alpha.text ++ ")" else ")"
  opening ++ parts ++ tail

def text : Colour → String
  | named name => name
  | function form first second third alpha =>
    match form with
    | .rgb => rgbText first second third alpha
    | .hsl =>
      let (red, green, blue) := hslToRgb first.value second.value third.value
      rgbText red green blue alpha
    | .hwb =>
      let (red, green, blue) := hwbToRgb first.value second.value third.value
      rgbText red green blue alpha
    | .lab => plainText "lab(" first second third alpha
    | .lch => plainText "lch(" first second third alpha
    | .oklab => plainText "oklab(" first second third alpha
    | .oklch => plainText "oklch(" first second third alpha
    | .inSpace space => plainText ("color(" ++ space.text ++ " ") first second third alpha

end Colour

end ContextDiagram
