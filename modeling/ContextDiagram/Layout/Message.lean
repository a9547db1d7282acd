import ContextDiagram.Layout.Distribution
import ContextDiagram.Layout.Routing
import ContextDiagram.Number.Shortest

namespace ContextDiagram.Layout

open Plane Number

def lengthsText (sign : String) (first second : Float32) : String :=
  text first ++ sign ++ text second

def DistributionFault.cause : DistributionFault Float32 → String
  | invalidCanvas canvas =>
    "canvas must be positive and finite, got " ++ lengthsText "×" canvas.width canvas.height
  | invalidMargin margin =>
    "node margins must be non-negative and finite, got " ++
      lengthsText "/" margin.horizontal margin.vertical
  | invalidSize id size =>
    "bounded context `" ++ id ++ "` has an invalid size " ++
      lengthsText "×" size.width size.height
  | tooWide id width canvasWidth =>
    "bounded context `" ++ id ++ "` needs a width of " ++ text width ++
      " but the canvas is " ++ text canvasWidth ++ " wide"
  | tooHigh rows height canvasHeight =>
    toString rows ++ " rows need a height of " ++ text height ++
      " but the canvas is " ++ text canvasHeight ++ " high"

def DistributionFault.message (f : DistributionFault Float32) : String :=
  "degenerate layout configuration: " ++ f.cause

def RoutingFault.message : RoutingFault → String
  | unknownContext index id =>
    "relationship #" ++ toString index ++ " references unknown bounded context `" ++ id ++ "`"
  | unplacedContext id => "bounded context `" ++ id ++ "` has no position"

end ContextDiagram.Layout
