import ContextDiagram.Layout.Sizing
import ContextDiagram.Style

namespace ContextDiagram

open Plane

structure LayoutSettings where
  width : Float32 := 1200
  height : Float32 := 800
  nodePadding : Spacing Float32 := ⟨100, 40⟩
  nodeMargin : Spacing Float32 := ⟨20, 30⟩
deriving Repr

structure Settings where
  layout : LayoutSettings := {}
  font : Text.Font Float32 := Text.Font.standard
  style : Style := {}
deriving Repr

def Settings.standard : Settings where

/-- What a layout takes from the settings; how wide a text is comes from elsewhere. -/
def Settings.options (s : Settings) (measure : Text.Measure Float32) :
    Layout.Options Float32 where
  canvas := ⟨s.layout.width, s.layout.height⟩
  font := s.font
  measure := measure
  padding := s.layout.nodePadding
  margin := s.layout.nodeMargin

end ContextDiagram
