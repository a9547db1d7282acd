import ContextDiagram.Proofs.Outcome
import ContextDiagram.Proofs.Settings.Setting

namespace ContextDiagram

open Plane Text Toml

section

variable {α β : Type} {read : Value → Option α} {default x : α} {found : Option Value}

theorem orDefault_map (h : orDefault read default found = some x) (f : α → β) :
    orDefault (fun v => (read v).map f) (f default) found = some (f x) := by
  cases found with
  | none =>
    cases h
    rfl
  | some v => exact congrArg (Option.map f) h

theorem orDefault_bind {inner : Value → Option β} {part : α → β} {search : Value → Option Value}
    (h : orDefault read default found = some x)
    (hinner : ∀ v, read v = some x → orDefault inner (part default) (search v) = some (part x)) :
    orDefault inner (part default) (found.bind search) = some (part x) := by
  cases found with
  | none =>
    cases h
    rfl
  | some v => exact hinner v h

end

section

variable {α : Type} {v : Value} {f : Field} {fields : Table}

theorem read_of_record? (hfields : v.record? f.names = some fields) {read : Value → Option α}
    {default x : α} (h : orDefault read default (fields.lookup f.name) = some x) :
    orDefault read default (v.field? f) = some x := by
  rwa [← Value.lookup_of_record? hfields]

theorem read_of_spacing? {spacing : Spacing Float32} (h : spacing? v = some spacing)
    (part : SpacingPart) :
    orDefault Value.single? 0 (v.field? (Setting.partField part)) = some (part.length spacing) := by
  obtain ⟨fields, hfields, h⟩ := Option.bind_eq_some_iff.1 h
  obtain ⟨horizontal, hhorizontal, h⟩ := Option.bind_eq_some_iff.1 h
  obtain ⟨vertical, hvertical, h⟩ := Option.bind_eq_some_iff.1 h
  cases h
  cases part with
  | horizontal => exact read_of_record? hfields hhorizontal
  | vertical => exact read_of_record? hfields hvertical

theorem read_of_layoutSettings? {layout : LayoutSettings} (h : layoutSettings? v = some layout) :
    let standard := Settings.standard.layout
    orDefault Value.single? standard.width (v.field? (.mk Setting.layoutNames "width")) =
        some layout.width ∧
      orDefault Value.single? standard.height (v.field? (.mk Setting.layoutNames "height")) =
        some layout.height ∧
      orDefault spacing? standard.nodePadding
        (v.field? (.mk Setting.layoutNames "node_padding")) = some layout.nodePadding ∧
      orDefault spacing? standard.nodeMargin
        (v.field? (.mk Setting.layoutNames "node_margin")) = some layout.nodeMargin := by
  obtain ⟨fields, hfields, h⟩ := Option.bind_eq_some_iff.1 h
  obtain ⟨width, hwidth, h⟩ := Option.bind_eq_some_iff.1 h
  obtain ⟨height, hheight, h⟩ := Option.bind_eq_some_iff.1 h
  obtain ⟨padding, hpadding, h⟩ := Option.bind_eq_some_iff.1 h
  obtain ⟨margin, hmargin, h⟩ := Option.bind_eq_some_iff.1 h
  cases h
  exact ⟨read_of_record? hfields hwidth, read_of_record? hfields hheight,
    read_of_record? hfields hpadding, read_of_record? hfields hmargin⟩

theorem read_of_font? {font : Font Float32} (h : font? v = some font) :
    let standard := Settings.standard.font
    orDefault Value.string? standard.family (v.field? (.mk Setting.fontNames "family")) =
        some font.family ∧
      orDefault Value.single? standard.size (v.field? (.mk Setting.fontNames "size")) =
        some font.size ∧
      orDefault Value.word? standard.weight (v.field? (.mk Setting.fontNames "weight")) =
        some font.weight := by
  obtain ⟨fields, hfields, h⟩ := Option.bind_eq_some_iff.1 h
  obtain ⟨family, hfamily, h⟩ := Option.bind_eq_some_iff.1 h
  obtain ⟨size, hsize, h⟩ := Option.bind_eq_some_iff.1 h
  obtain ⟨weight, hweight, h⟩ := Option.bind_eq_some_iff.1 h
  cases h
  exact ⟨read_of_record? hfields hfamily, read_of_record? hfields hsize,
    read_of_record? hfields hweight⟩

theorem read_of_style? {style : Style} (h : style? v = some style) (role : ColourRole) :
    orDefault colourText? (Settings.standard.style.text? role)
      (v.field? (Setting.colourField role)) = some (style.text? role) := by
  obtain ⟨fields, hfields, h⟩ := Option.bind_eq_some_iff.1 h
  obtain ⟨background, hbackground, h⟩ := Option.bind_eq_some_iff.1 h
  obtain ⟨nodeFill, hnodeFill, h⟩ := Option.bind_eq_some_iff.1 h
  obtain ⟨line, hline, h⟩ := Option.bind_eq_some_iff.1 h
  cases h
  cases role with
  | background => exact read_of_record? hfields hbackground
  | nodeFill => exact read_of_record? hfields hnodeFill
  | line => exact read_of_record? hfields hline

theorem read_of_ofTable? {t : Table} {s : Settings} (h : Settings.ofTable? t = some s) :
    let document := Value.table t
    let standard := Settings.standard
    orDefault layoutSettings? standard.layout
        (document.field? (.mk Setting.groupNames "layout")) = some s.layout ∧
      orDefault font? standard.font (document.field? (.mk Setting.groupNames "font")) =
        some s.font ∧
      orDefault style? standard.style (document.field? (.mk Setting.groupNames "style")) =
        some s.style := by
  obtain ⟨fields, hfields, h⟩ := Option.bind_eq_some_iff.1 h
  obtain ⟨layout, hlayout, h⟩ := Option.bind_eq_some_iff.1 h
  obtain ⟨font, hfont, h⟩ := Option.bind_eq_some_iff.1 h
  obtain ⟨style, hstyle, h⟩ := Option.bind_eq_some_iff.1 h
  cases h
  exact ⟨read_of_record? hfields hlayout, read_of_record? hfields hfont,
    read_of_record? hfields hstyle⟩

end

theorem read_inside {α β : Type} {read : Value → Option α} {inner : Value → Option β}
    {default x : α} {f g : Field} {document : Value} (part : α → β)
    (h : orDefault read default (document.field? f) = some x)
    (hinner : ∀ v, read v = some x →
      orDefault inner (part default) (v.field? g) = some (part x)) :
    orDefault inner (part default) (document.given? [f, g]) = some (part x) := by
  rw [Value.given?]
  apply orDefault_bind h
  intro v hv
  rw [Value.given?_singleton]
  exact hinner v hv

/-- A part of a spacing has its default only if nothing at all is given of the spacing. -/
theorem read_part {default spacing : Spacing Float32} {path : List Field} {document : Value}
    (h : orDefault spacing? default (document.given? path) = some spacing) (part : SpacingPart) :
    orDefault (fun v : Value => v.single?.map Content.number)
      (if (document.given? path).isSome then .number 0 else .number (part.length default))
      (document.given? (path ++ [Setting.partField part])) =
        some (.number (part.length spacing)) := by
  rw [Value.given?_append]
  cases hfound : document.given? path with
  | none =>
    rw [hfound] at h
    cases h
    rfl
  | some v =>
    rw [hfound] at h
    rw [Option.bind_some, Value.given?_singleton]
    exact orDefault_map (read_of_spacing? h part) Content.number

/-- What a setting is that a document does not give: a part of a spacing that is given is zero. -/
def Setting.fallback (k : Setting) (document : Value) : Content :=
  if (k.spacing?.bind fun spacing => document.given? spacing).isSome then .number 0
  else k.content .standard

theorem Setting.read_content {t : Table} {s : Settings} (h : Settings.ofTable? t = some s)
    (k : Setting) :
    orDefault k.read? (k.fallback (.table t)) ((Value.table t).given? k.path) =
      some (k.content s) := by
  obtain ⟨hlayout, hfont, hstyle⟩ := read_of_ofTable? h
  cases k with
  | width =>
    have hwidth := read_inside LayoutSettings.width hlayout fun v hv =>
      (read_of_layoutSettings? hv).1
    exact orDefault_map hwidth Content.number
  | height =>
    have hheight := read_inside LayoutSettings.height hlayout fun v hv =>
      (read_of_layoutSettings? hv).2.1
    exact orDefault_map hheight Content.number
  | padding part =>
    have hpadding := read_inside LayoutSettings.nodePadding hlayout fun v hv =>
      (read_of_layoutSettings? hv).2.2.1
    exact read_part hpadding part
  | margin part =>
    have hmargin := read_inside LayoutSettings.nodeMargin hlayout fun v hv =>
      (read_of_layoutSettings? hv).2.2.2
    exact read_part hmargin part
  | family =>
    have hfamily := read_inside Font.family hfont fun v hv => (read_of_font? hv).1
    exact orDefault_map hfamily Content.text
  | size =>
    have hsize := read_inside Font.size hfont fun v hv => (read_of_font? hv).2.1
    exact orDefault_map hsize Content.number
  | weight =>
    have hweight := read_inside Font.weight hfont fun v hv => (read_of_font? hv).2.2
    exact orDefault_map hweight Content.whole
  | colour role =>
    have hcolour := read_inside (Style.text? · role) hstyle fun v hv => read_of_style? hv role
    have hcontent := orDefault_map hcolour Content.ofText?
    have hread : (fun v => (colourText? v).map Content.ofText?) = (colour role).read? := by
      funext v
      exact Option.map_map _ _ _
    rw [hread] at hcontent
    exact hcontent

namespace Setting

theorem number_zero_ne_standard {k : Setting} (h : k.spacing? ≠ none) :
    Content.number 0 ≠ k.content .standard := by
  cases k with
  | padding part => cases part <;> decide
  | margin part => cases part <;> decide
  | _ => exact absurd rfl h

variable {t : Table} {s : Settings} {k : Setting}

theorem isOf_content (ht : (Value.table t).HasDistinctKeys) (h : Settings.ofTable? t = some s)
    {v : Value} (hv : (Value.table t).Gives k.path v) : (k.content s).IsOf v := by
  have hread := k.read_content h
  rw [(Value.given?_eq_some_iff ht).2 hv] at hread
  exact isOf_of_read? hread

theorem content_eq_fallback (ht : (Value.table t).HasDistinctKeys)
    (h : Settings.ofTable? t = some s) (habsent : ∀ v, ¬(Value.table t).Gives k.path v) :
    k.content s = k.fallback (.table t) := by
  have hread := k.read_content h
  rw [(Value.given?_eq_none_iff ht).2 habsent] at hread
  exact (Option.some.inj hread).symm

theorem IsLeftOut.content_eq (hk : k.IsLeftOut (.table t)) (ht : (Value.table t).HasDistinctKeys)
    (h : Settings.ofTable? t = some s) : k.content s = .number 0 := by
  obtain ⟨habsent, spacing, hspacing, v, hv⟩ := hk
  rw [content_eq_fallback ht h habsent, fallback, hspacing, Option.bind_some,
    (Value.given?_eq_some_iff ht).2 hv]
  rfl

theorem keepsDefault_iff (ht : (Value.table t).HasDistinctKeys)
    (h : Settings.ofTable? t = some s) (k : Setting) :
    k.KeepsDefault (.table t) s ↔ ¬k.IsLeftOut (.table t) := by
  constructor
  · intro hkeeps hk
    have hspacing : k.spacing? ≠ none := by
      obtain ⟨-, spacing, hspacing, -⟩ := hk
      exact Option.ne_none_iff_exists'.2 ⟨spacing, hspacing⟩
    exact number_zero_ne_standard hspacing ((hk.content_eq ht h).symm.trans (hkeeps hk.1))
  · intro hk habsent
    rw [content_eq_fallback ht h habsent, fallback, if_neg]
    intro hsome
    obtain ⟨v, hv⟩ := Option.isSome_iff_exists.1 hsome
    obtain ⟨spacing, hspacing, hv⟩ := Option.bind_eq_some_iff.1 hv
    exact hk ⟨habsent, spacing, hspacing, v, (Value.given?_eq_some_iff ht).1 hv⟩

end Setting

namespace Settings

section

variable {readTable : String → Option Table} {source : String} {s : Settings}

theorem ofText_eq_ok_iff :
    ofText readTable source = .ok s ↔ ∃ t, readTable source = some t ∧ ofTable? t = some s := by
  rw [ofText]
  cases readTable source with
  | none => exact iff_of_false nofun nofun
  | some t => cases hs : ofTable? t <;> simp [hs]

/-- What a text gives does not depend on how it is read, as long as no table has a key twice. -/
theorem content_of_ofText
    (hkeys : ∀ source t, readTable source = some t → (Value.table t).HasDistinctKeys)
    (h : ofText readTable source = .ok s) :
    ∃ t, readTable source = some t ∧ ∀ k : Setting,
      (∀ v, (Value.table t).Gives k.path v → (k.content s).IsOf v) ∧
      (k.IsLeftOut (.table t) → k.content s = .number 0) ∧
      (k.KeepsDefault (.table t) s ↔ ¬k.IsLeftOut (.table t)) := by
  obtain ⟨t, ht, hs⟩ := ofText_eq_ok_iff.1 h
  refine ⟨t, ht, fun k => ⟨?_, ?_, k.keepsDefault_iff (hkeys source t ht) hs⟩⟩
  · intro v hv
    exact Setting.isOf_content (hkeys source t ht) hs hv
  · intro hk
    exact hk.content_eq (hkeys source t ht) hs

end

/-- A setting that a document gives is what is given. One that it does not give has its default,
unless it is a part of a spacing that is given without it: then it is zero. -/
theorem content_of_ofToml {source : String} {s : Settings} (h : ofToml source = .ok s) :
    ∃ t, Toml.read? source = some t ∧ ∀ k : Setting,
      (∀ v, (Value.table t).Gives k.path v → (k.content s).IsOf v) ∧
      (k.IsLeftOut (.table t) → k.content s = .number 0) ∧
      (k.KeepsDefault (.table t) s ↔ ¬k.IsLeftOut (.table t)) :=
  content_of_ofText (fun _ _ => hasDistinctKeys_of_read?) h

theorem content_of_ofToml_partial : ∃ (source : String) (s : Settings) (t : Table) (v w : Value),
    ofToml source = .ok s ∧ Toml.read? source = some t ∧
      (Value.table t).Gives Setting.width.path v ∧ v.single? = some 1000 ∧
      (Setting.width.content s).IsOf v ∧
      (Value.table t).Gives (Setting.colour .line).path w ∧ w.string? = some "navy" ∧
      ((Setting.colour .line).content s).IsOf w ∧
      Setting.height.content s = Setting.height.content .standard ∧
      (Setting.margin .vertical).content s = .number 0 := by
  let source := "[layout]\nwidth = 1000\nnode_margin.horizontal = 5\n[style]\nline_color = \"navy\""
  have hloaded : (ofToml source).isOk = true := by
    decide +kernel
  have hgiven : (Toml.read? source).map (fun t =>
      let document := Value.table t
      ((document.given? Setting.width.path).bind Value.single?,
        (document.given? (Setting.colour .line).path).bind Value.string?,
        document.given? Setting.height.path |>.isNone,
        document.given? (Setting.margin .vertical).path |>.isNone,
        (Setting.margin .vertical).spacing?.bind (document.given? ·) |>.isSome)) =
      some (some 1000, some "navy", true, true, true) := by
    decide +kernel
  obtain ⟨s, hs⟩ := Except.exists_eq_ok_of_isOk hloaded
  obtain ⟨t, ht, hcontent⟩ := content_of_ofToml hs
  have hkeys := hasDistinctKeys_of_read? ht
  rw [ht] at hgiven
  obtain ⟨hwidth, hgiven⟩ := Prod.mk.inj (Option.some.inj hgiven)
  obtain ⟨hcolour, hgiven⟩ := Prod.mk.inj hgiven
  obtain ⟨hheight, hgiven⟩ := Prod.mk.inj hgiven
  obtain ⟨hpart, hspacing⟩ := Prod.mk.inj hgiven
  obtain ⟨v, hv, hnumber⟩ := Option.bind_eq_some_iff.1 hwidth
  obtain ⟨w, hw, htext⟩ := Option.bind_eq_some_iff.1 hcolour
  have hv := (Value.given?_eq_some_iff hkeys).1 hv
  have hw := (Value.given?_eq_some_iff hkeys).1 hw
  have hheight := (Value.given?_eq_none_iff hkeys).1 (Option.isNone_iff_eq_none.1 hheight)
  have hpart := (Value.given?_eq_none_iff hkeys).1 (Option.isNone_iff_eq_none.1 hpart)
  obtain ⟨u, hu⟩ := Option.isSome_iff_exists.1 hspacing
  have hleftOut : (Setting.margin .vertical).IsLeftOut (.table t) :=
    ⟨hpart, _, rfl, u, (Value.given?_eq_some_iff hkeys).1 hu⟩
  have hnotLeftOut : ¬Setting.height.IsLeftOut (.table t) := by
    rintro ⟨-, spacing, hspacing, -⟩
    cases hspacing
  exact ⟨source, s, t, v, w, hs, ht, hv, hnumber, (hcontent .width).1 v hv, hw, htext,
    (hcontent (.colour .line)).1 w hw, (hcontent .height).2.2.2 hnotLeftOut hheight,
    (hcontent (.margin .vertical)).2.1 hleftOut⟩

theorem exists_spacing_part_without_default : ∃ (t : Table) (s : Settings),
    Toml.read? "[layout.node_padding]\nhorizontal = 60" = some t ∧
      ofToml "[layout.node_padding]\nhorizontal = 60" = .ok s ∧
      ¬(Setting.padding .vertical).KeepsDefault (.table t) s := by
  have hloaded : (ofToml "[layout.node_padding]\nhorizontal = 60").toOption.map
      (fun s => (Setting.padding .vertical).content s) = some (.number 0) := by
    decide +kernel
  have hgiven : (Toml.read? "[layout.node_padding]\nhorizontal = 60").map
      (fun t => (Value.table t).given? (Setting.padding .vertical).path |>.isNone) = some true := by
    decide +kernel
  obtain ⟨s, hs, hcontent⟩ := Option.map_eq_some_iff.1 hloaded
  obtain ⟨t, ht, habsent⟩ := Option.map_eq_some_iff.1 hgiven
  have hkeys := hasDistinctKeys_of_read? ht
  refine ⟨t, s, ht, Except.toOption_eq_some_iff.1 hs, ?_⟩
  intro hkeeps
  have hstandard := hkeeps
    ((Value.given?_eq_none_iff hkeys).1 (Option.isNone_iff_eq_none.1 habsent))
  rw [hcontent] at hstandard
  exact absurd hstandard (by decide)

end Settings

end ContextDiagram
