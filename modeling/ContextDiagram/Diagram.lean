import ContextDiagram.Failure
import ContextDiagram.Language.Reading
import ContextDiagram.Settings
import ContextDiagram.Svg

namespace ContextDiagram

/-- The map of a source text; warnings are passed over. -/
def ContextMap.ofSource (source : String) : Except Failure ContextMap :=
  match Language.read source with
  | .ok reading => .ok reading.map
  | .error diagnostics => .error (.source source diagnostics)

variable (settings : Settings) (measure : Text.Measure Float32)

/-- The layout of a map, which may lack relationships. -/
def ContextMap.layoutWith (m : ContextMap) : Except Failure (MapLayout Float32) :=
  match m.layout (settings.options measure) with
  | .ok layout => .ok layout
  | .error fault => .error (.layout fault)

/-- The drawing of a map whose relationships can all be drawn. -/
def ContextMap.drawing (m : ContextMap) : Except Failure Drawing := do
  let layout ← m.layoutWith settings measure
  if layout.faults.isEmpty then return .ofLayout layout settings.font
  else throw (.unrouted layout.faults)

def Drawing.svg (d : Drawing) (style : Style) : Except StyleFault String :=
  style.palette.map (Svg.render · d)

def ContextMap.svg (m : ContextMap) : Except Failure String := do
  let drawing ← m.drawing settings measure
  (drawing.svg settings.style).mapError Failure.style

end ContextDiagram
