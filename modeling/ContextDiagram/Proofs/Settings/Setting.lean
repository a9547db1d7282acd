import ContextDiagram.Proofs.Toml.Given
import ContextDiagram.Settings.Reading

namespace ContextDiagram

open Plane Text Toml

inductive SpacingPart
  | horizontal
  | vertical
deriving DecidableEq, Repr

inductive Setting
  | width
  | height
  | padding (part : SpacingPart)
  | margin (part : SpacingPart)
  | family
  | size
  | weight
  | colour (role : ColourRole)
deriving DecidableEq, Repr

inductive Content
  | number (x : Float32)
  | whole (n : Nat)
  | text (s : String)
  | unset
deriving DecidableEq, Repr

/-- A content is that of a value: a number the nearest one in single precision, anything else as it
is given. -/
inductive Content.IsOf : Content → Value → Prop
  | integer (n : Int) : (number (Float32.ofInt n)).IsOf (.integer n)
  | float (x : Float) : (number (Number.narrow x)).IsOf (.float x)
  | whole (n : Nat) : (whole n).IsOf (.integer n)
  | text (s : String) : (text s).IsOf (.string s)

namespace Content

variable {v : Value}

theorem isOf_of_single? {x : Float32} (h : v.single? = some x) : (number x).IsOf v := by
  cases v with
  | integer n =>
    rw [Value.single?] at h
    split at h
    · cases h
      exact .integer n
    · cases h
  | float x =>
    cases h
    exact .float x
  | _ => cases h

theorem isOf_of_word? {n : Nat} (h : v.word? = some n) : (whole n).IsOf v := by
  cases v with
  | integer m =>
    rw [Value.word?] at h
    split at h
    · next hm =>
      cases h
      obtain ⟨n, rfl⟩ := Int.eq_ofNat_of_zero_le hm.1
      exact .whole n
    · cases h
  | _ => cases h

theorem isOf_of_string? {s : String} (h : v.string? = some s) : (text s).IsOf v := by
  cases v with
  | string =>
    cases h
    exact .text s
  | _ => cases h

def ofText? : Option String → Content
  | none => unset
  | some s => text s

end Content

def SpacingPart.length (spacing : Spacing Float32) : SpacingPart → Float32
  | horizontal => spacing.horizontal
  | vertical => spacing.vertical

namespace Setting

def content (s : Settings) : Setting → Content
  | width => .number s.layout.width
  | height => .number s.layout.height
  | padding part => .number (part.length s.layout.nodePadding)
  | margin part => .number (part.length s.layout.nodeMargin)
  | family => .text s.font.family
  | size => .number s.font.size
  | weight => .whole s.font.weight
  | colour role => .ofText? (s.style.text? role)

def groupNames : List String :=
  ["layout", "font", "style"]

def layoutNames : List String :=
  ["width", "height", "node_padding", "node_margin"]

def spacingNames : List String :=
  ["horizontal", "vertical"]

def fontNames : List String :=
  ["family", "size", "weight"]

def styleNames : List String :=
  ["background_color", "node_fill_color", "line_color"]

def spacing? : Setting → Option (List Field)
  | padding _ => some [.mk groupNames "layout", .mk layoutNames "node_padding"]
  | margin _ => some [.mk groupNames "layout", .mk layoutNames "node_margin"]
  | _ => none

def partField : SpacingPart → Field
  | .horizontal => .mk spacingNames "horizontal"
  | .vertical => .mk spacingNames "vertical"

def colourField : ColourRole → Field
  | .background => .mk styleNames "background_color"
  | .nodeFill => .mk styleNames "node_fill_color"
  | .line => .mk styleNames "line_color"

def path : Setting → List Field
  | width => [.mk groupNames "layout", .mk layoutNames "width"]
  | height => [.mk groupNames "layout", .mk layoutNames "height"]
  | padding part => [.mk groupNames "layout", .mk layoutNames "node_padding", partField part]
  | margin part => [.mk groupNames "layout", .mk layoutNames "node_margin", partField part]
  | family => [.mk groupNames "font", .mk fontNames "family"]
  | size => [.mk groupNames "font", .mk fontNames "size"]
  | weight => [.mk groupNames "font", .mk fontNames "weight"]
  | colour role => [.mk groupNames "style", colourField role]

def KeepsDefault (k : Setting) (document : Value) (s : Settings) : Prop :=
  (∀ v, ¬document.Gives k.path v) → k.content s = k.content .standard

/-- A spacing is given without the part of it that the setting is. -/
def IsLeftOut (k : Setting) (document : Value) : Prop :=
  (∀ v, ¬document.Gives k.path v) ∧ ∃ spacing ∈ k.spacing?, ∃ v, document.Gives spacing v

def read? : Setting → Value → Option Content
  | family, v | colour _, v => v.string?.map .text
  | weight, v => v.word?.map .whole
  | _, v => v.single?.map .number

theorem isOf_of_read? {k : Setting} {v : Value} {c : Content} (h : k.read? v = some c) :
    c.IsOf v := by
  cases k with
  | family | colour =>
    obtain ⟨s, hs, rfl⟩ := Option.map_eq_some_iff.1 h
    exact Content.isOf_of_string? hs
  | weight =>
    obtain ⟨n, hn, rfl⟩ := Option.map_eq_some_iff.1 h
    exact Content.isOf_of_word? hn
  | _ =>
    obtain ⟨x, hx, rfl⟩ := Option.map_eq_some_iff.1 h
    exact Content.isOf_of_single? hx

end Setting

end ContextDiagram
