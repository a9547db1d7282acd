import ContextDiagram.Failure
import ContextDiagram.Settings
import ContextDiagram.Toml.Reader

namespace ContextDiagram

open Plane Text Toml

/-- What is given under a key, or the default where nothing is. -/
def orDefault (read : Value → Option α) (default : α) : Option Value → Option α
  | none => some default
  | some v => read v

/-- A part that is not given is zero. -/
def spacing? (v : Value) : Option (Spacing Float32) := do
  let fields ← v.record? ["horizontal", "vertical"]
  return {
    horizontal := ← orDefault Value.single? 0 (fields.lookup "horizontal")
    vertical := ← orDefault Value.single? 0 (fields.lookup "vertical") }

def layoutSettings? (v : Value) : Option LayoutSettings := do
  let fields ← v.record? ["width", "height", "node_padding", "node_margin"]
  let standard : LayoutSettings := {}
  return {
    width := ← orDefault Value.single? standard.width (fields.lookup "width")
    height := ← orDefault Value.single? standard.height (fields.lookup "height")
    nodePadding := ← orDefault spacing? standard.nodePadding (fields.lookup "node_padding")
    nodeMargin := ← orDefault spacing? standard.nodeMargin (fields.lookup "node_margin") }

def font? (v : Value) : Option (Font Float32) := do
  let fields ← v.record? ["family", "size", "weight"]
  let standard : Font Float32 := .standard
  return {
    family := ← orDefault Value.string? standard.family (fields.lookup "family")
    size := ← orDefault Value.single? standard.size (fields.lookup "size")
    weight := ← orDefault Value.word? standard.weight (fields.lookup "weight") }

/-- The text of a colour, which need not be one until it is used. -/
def colourText? (v : Value) : Option (Option String) :=
  v.string?.map some

def style? (v : Value) : Option Style := do
  let fields ← v.record? ["background_color", "node_fill_color", "line_color"]
  return {
    background := ← orDefault colourText? none (fields.lookup "background_color")
    nodeFill := ← orDefault colourText? none (fields.lookup "node_fill_color")
    line := ← orDefault colourText? none (fields.lookup "line_color") }

namespace Settings

def ofTable? (t : Table) : Option Settings := do
  let fields ← (Value.table t).record? ["layout", "font", "style"]
  return {
    layout := ← orDefault layoutSettings? {} (fields.lookup "layout")
    font := ← orDefault font? .standard (fields.lookup "font")
    style := ← orDefault style? {} (fields.lookup "style") }

def ofText (readTable : String → Option Table) (source : String) : Except SettingsFault Settings :=
  match readTable source with
  | none => .error (.malformed "not a TOML document")
  | some t =>
    match ofTable? t with
    | none => .error (.malformed "a setting has a value of the wrong kind")
    | some settings => .ok settings

def ofToml : String → Except SettingsFault Settings :=
  ofText Toml.read?

end Settings

end ContextDiagram
