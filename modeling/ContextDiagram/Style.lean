import ContextDiagram.Colour.Reader

namespace ContextDiagram

inductive ColourRole
  | background
  | nodeFill
  | line
deriving DecidableEq, Repr

def ColourRole.text : ColourRole → String
  | background => "background"
  | nodeFill => "node fill"
  | line => "line"

structure Style where
  background : Option String := none
  nodeFill : Option String := none
  line : Option String := none
deriving DecidableEq, Repr

/-- A text that is no colour, and the part of the drawing it was meant for. -/
structure StyleFault where
  role : ColourRole
  source : String
  fault : Colour.Fault
deriving DecidableEq, Repr

def StyleFault.message (f : StyleFault) : String :=
  "Invalid " ++ f.role.text ++ " color in config: " ++ f.fault.message f.source

/-- The colours of a drawing; without a background colour there is no background. -/
structure Palette where
  background : Option Colour
  nodeFill : Colour
  line : Colour
deriving Repr

namespace Style

def text? (s : Style) : ColourRole → Option String
  | .background => s.background
  | .nodeFill => s.nodeFill
  | .line => s.line

def colour? (s : Style) (role : ColourRole) : Except StyleFault (Option Colour) :=
  match s.text? role with
  | none => .ok none
  | some source =>
    match Colour.read source with
    | .ok colour => .ok (some colour)
    | .error fault => .error ⟨role, source, fault⟩

/-- The palette of a style: white ellipses and black lines unless it says otherwise. The first fault
counts, in the order of background, fill and line. -/
def palette (s : Style) : Except StyleFault Palette := do
  let background ← s.colour? .background
  let nodeFill ← s.colour? .nodeFill
  let line ← s.colour? .line
  return {
    background := background
    nodeFill := nodeFill.getD .white
    line := line.getD .black }

end Style

end ContextDiagram
