import ContextDiagram.Layout.Distribution
import ContextDiagram.Layout.Routing

namespace ContextDiagram

open Plane Layout

structure MapLayout (α : Type) where
  canvas : Size α
  contexts : List (SizedContext α)
  links : List (Link α)
  faults : List RoutingFault
deriving Repr

/-- A map that does not fit has no layout; a relationship that cannot be routed is left out and
reported. -/
def ContextMap.layout {α : Type} [EuclideanScalar α] (m : ContextMap) (options : Options α) :
    Except (DistributionFault α) (MapLayout α) := do
  let sized := m.contexts.map (SizedContext.ofContext options)
  let placed ← distribute sized options.canvas options.margin
  let (links, faults) := routeAll placed 0 m.relationships
  return { canvas := options.canvas, contexts := placed, links := links, faults := faults }

end ContextDiagram
