import ContextDiagram.Proofs.Drawing
import ContextDiagram.Proofs.Layout.FiniteLinks
import ContextDiagram.Proofs.Number.Text
import ContextDiagram.Svg

namespace ContextDiagram

open Plane Layout Number

structure Layout.SizedContext.IsPlacedFinitely (c : SizedContext Float32) : Prop where
  isFinite_size : c.size.IsFinite
  exists_center : ∃ center, c.center = some center ∧ center.IsFinite ∧
    ¬ShowsNonFinite (Svg.moveTo center)

structure Layout.Link.IsWrittenFinitely (link : Link Float32) : Prop where
  path : ¬ShowsNonFinite link.path
  toSource : ¬ShowsNonFinite (Svg.moveTo link.sourceAnchor)
  toTarget : ¬ShowsNonFinite (Svg.moveTo link.targetAnchor)

theorem isPlain_point {p : Point Float32} (h : p.IsFinite) : IsPlain p.text :=
  ((isPlain_text h.1).append ⟨by decide, by decide⟩).append (isPlain_text h.2)

theorem isPlain_moveTo {p : Point Float32} (h : p.IsFinite) : IsPlain (Svg.moveTo p) :=
  ((show IsPlain "translate(" from ⟨by decide, by decide⟩).append (isPlain_point h)).append
    ⟨by decide, by decide⟩

theorem Layout.Link.IsRoutedFinitely.isPlain_path {link : Link Float32}
    (h : link.IsRoutedFinitely) : IsPlain link.path := by
  have hsource := (show IsPlain "M " from ⟨by decide, by decide⟩).append
    (isPlain_point h.isFinite_sourceAnchor)
  have htarget := isPlain_point h.isFinite_targetAnchor
  rw [Link.path]
  cases hcurve : link.curve with
  | straight => exact (hsource.append ⟨by decide, by decide⟩).append htarget
  | arc radius =>
    have hradius := isPlain_text (h.isFinite_radius radius hcurve)
    have hradii := ((show IsPlain " A " from ⟨by decide, by decide⟩).append hradius).append
      (show IsPlain "," from ⟨by decide, by decide⟩)
    exact (hsource.append ((hradii.append hradius).append ⟨by decide, by decide⟩)).append htarget

theorem Layout.Link.IsRoutedFinitely.isWrittenFinitely {link : Link Float32}
    (h : link.IsRoutedFinitely) : link.IsWrittenFinitely where
  path := h.isPlain_path.not_showsNonFinite
  toSource := (isPlain_moveTo h.isFinite_sourceAnchor).not_showsNonFinite
  toTarget := (isPlain_moveTo h.isFinite_targetAnchor).not_showsNonFinite

theorem Layout.SizedContext.LiesWithin.isPlacedFinitely {c : SizedContext Float32}
    {width height : ℝ} (h : c.LiesWithin width height) : c.IsPlacedFinitely := by
  obtain ⟨r, hr, -⟩ := h.isReal_width
  obtain ⟨s, hs, -⟩ := h.isReal_height
  obtain ⟨p, hp, hx, hy⟩ := h.isWithin_center
  have hfinite : p.IsFinite := ⟨hx.isFinite, hy.isFinite⟩
  exact ⟨⟨isFinite_iff.2 ⟨r, hr⟩, isFinite_iff.2 ⟨s, hs⟩⟩, p, hp, hfinite,
    (isPlain_moveTo hfinite).not_showsNonFinite⟩

theorem le_two_pow_of_le {x : Float32} {r : ℝ} (hx : IsReal x r) {k : ℕ} (hk : k < 128)
    (h : Scalar.le x (Scalar.ofNat (2 ^ k)) = true) : r ≤ 2 ^ k := by
  obtain ⟨a, b, ha, hb, hab⟩ := le_iff.1 (of_decide_eq_true h)
  have hpow : ((2 ^ k : ℕ) : ℝ) = 2 ^ k := by rw [Nat.cast_pow, Nat.cast_ofNat]
  have hreading := reading_ofNat (2 ^ k)
  rw [hpow, rounded_two_pow hk] at hreading
  rw [Option.some.inj (ha.symm.trans hx), Option.some.inj (hb.symm.trans hreading)] at hab
  exact EReal.coe_le_coe_iff.1 hab

/-- The contexts of a layout have finite sizes and places on every canvas. The links have finite
ends and radii if neither length of the canvas is above `2 ^ 57`, and finite places of their labels
but for arcs over a chord so short that its reciprocal is infinite. -/
theorem ContextMap.isFinite_of_layout {m : ContextMap} {options : Options Float32}
    {layout : MapLayout Float32} (h : m.layout options = .ok layout)
    (hcount : m.contexts.length < 2 ^ 64) :
    (∀ c ∈ layout.contexts, c.IsPlacedFinitely) ∧
      (Scalar.le options.canvas.width (Scalar.ofNat (2 ^ 57)) = true →
        Scalar.le options.canvas.height (Scalar.ofNat (2 ^ 57)) = true →
          ∀ link ∈ layout.links, link.IsRoutedFinitely ∧ link.IsWrittenFinitely) := by
  obtain ⟨placed, hplaced, rfl⟩ := layout_eq_ok_iff.1 h
  obtain ⟨hcanvas, -⟩ := validate_eq_ok_iff.1 (distribute_eq_ok_iff.1 hplaced).1
  obtain ⟨hvalid, -⟩ := Bool.and_eq_true_iff.1 (Bool.and_eq_true_iff.1 hcanvas).1
  obtain ⟨hwidth_length, hheight_length⟩ := Bool.and_eq_true_iff.1 hvalid
  obtain ⟨width, hwidth, -⟩ := isLength_iff.1 hwidth_length
  obtain ⟨height, hheight, -⟩ := isLength_iff.1 hheight_length
  have hwithin := liesWithin_of_distribute hplaced (by rwa [List.length_map]) hwidth hheight
  refine ⟨fun c hc => (hwithin c hc).isPlacedFinitely, fun hwidth_le hheight_le link hlink => ?_⟩
  obtain ⟨index, r, source, target, hsource, hcenter, htarget, hcenter', rfl⟩ :=
    (routed_routeAll placed 0 m.relationships).exists_connect link hlink
  have hfinite := isRoutedFinitely_connect (hwithin _ hsource) hcenter (hwithin _ htarget) hcenter'
    (le_two_pow_of_le hwidth (by norm_num) hwidth_le)
    (le_two_pow_of_le hheight (by norm_num) hheight_le) index r
  exact ⟨hfinite, hfinite.isWrittenFinitely⟩

/-- Contexts without an extent may be so close together that the chord has no reciprocal. -/
example :
    let space : Float32 := Scalar.ofNat 1 / Scalar.ofNat (2 ^ 70) / Scalar.ofNat (2 ^ 70)
    let m : ContextMap := {
      contexts := [⟨"A", none⟩, ⟨"B", none⟩, ⟨"C", none⟩]
      relationships := [⟨⟨"A", []⟩, .toTarget, ⟨"C", []⟩⟩] }
    let options : Options Float32 := {
      canvas := ⟨Scalar.ofNat 100, Scalar.ofNat 100⟩
      font := .standard
      measure := .constant Scalar.zero Scalar.zero
      padding := .none
      margin := ⟨space, space⟩ }
    (m.layout options).toOption.map (fun layout => layout.links.map fun link =>
      Number.text link.labelAnchor.x) = some ["-inf"] := by
  decide +kernel

/-- On a larger canvas the product of two radii may overflow, and both ends of a link with it. -/
theorem exists_link_without_end : ∃ (m : ContextMap) (options : Options Float32)
    (layout : MapLayout Float32), m.layout options = .ok layout ∧
      ∃ link ∈ layout.links, ¬link.sourceAnchor.IsFinite ∧ ShowsNonFinite link.path := by
  let m : ContextMap := {
    contexts := [⟨"A", none⟩, ⟨"B", none⟩]
    relationships := [⟨⟨"A", []⟩, .toTarget, ⟨"B", []⟩⟩] }
  let options : Options Float32 := {
    canvas := ⟨Scalar.ofNat (2 ^ 69), Scalar.ofNat (2 ^ 69)⟩
    font := .standard
    measure := .constant (Scalar.ofNat (2 ^ 66)) (Scalar.ofNat (2 ^ 66))
    padding := .none
    margin := ⟨Scalar.ofNat (2 ^ 65), Scalar.zero⟩ }
  obtain ⟨layout, hlayout⟩ : ∃ layout, m.layout options = .ok layout := by
    apply Except.exists_eq_ok_of_isOk
    decide +kernel
  have hlinks : (m.layout options).toOption.map (fun layout => layout.links.map fun link =>
      (Scalar.isFinite link.sourceAnchor.x, link.path)) =
        some [(false, "M inf,NaN L -inf,NaN")] := by
    decide +kernel
  rw [hlayout] at hlinks
  obtain ⟨link, hlink, hnumbers⟩ := List.map_eq_singleton_iff.1 (Option.some.inj hlinks)
  obtain ⟨hend, hpath⟩ := Prod.mk.inj hnumbers
  refine ⟨m, options, layout, hlayout, link, by rw [hlink]; exact List.mem_singleton_self link,
    ?_, ?_⟩
  · intro h
    exact Bool.eq_false_iff.1 hend h.1
  · rw [hpath]
    exact .inl (by decide)

theorem isFinite_of_layout_diagonal : ∃ (m : ContextMap) (options : Options Float32)
    (layout : MapLayout Float32), m.layout options = .ok layout ∧ m.contexts.length < 2 ^ 64 ∧
      Scalar.le options.canvas.width (Scalar.ofNat (2 ^ 57)) = true ∧
      Scalar.le options.canvas.height (Scalar.ofNat (2 ^ 57)) = true ∧
      layout.contexts.length = 3 ∧ (∀ c ∈ layout.contexts, c.IsPlacedFinitely) ∧
      ∃ link, layout.links = [link] ∧ link.IsRoutedFinitely ∧ link.IsWrittenFinitely ∧
        ∀ radius, link.curve = .arc radius → Scalar.same radius Scalar.zero = true ∨
          Scalar.isFinite (Scalar.ofNat 1 / radius) = true := by
  let m : ContextMap := {
    contexts := [⟨"A", none⟩, ⟨"B", none⟩, ⟨"C", none⟩]
    relationships := [⟨⟨"A", []⟩, .toTarget, ⟨"C", []⟩⟩] }
  let options : Options Float32 := {
    canvas := ⟨Scalar.ofNat 1200, Scalar.ofNat 800⟩
    font := .standard
    measure := .constant (Scalar.ofNat 10) (Scalar.ofNat 10)
    padding := ⟨Scalar.ofNat 100, Scalar.ofNat 40⟩
    margin := ⟨Scalar.ofNat 20, Scalar.ofNat 30⟩ }
  obtain ⟨layout, hlayout⟩ : ∃ layout, m.layout options = .ok layout := by
    apply Except.exists_eq_ok_of_isOk
    decide +kernel
  have hlinks : (m.layout options).toOption.map (fun layout => (layout.contexts.length,
      layout.links.map fun link => (Scalar.isFinite link.labelAnchor.x,
        Scalar.isFinite link.labelAnchor.y))) = some (3, [(true, true)]) := by
    decide +kernel
  rw [hlayout] at hlinks
  obtain ⟨hcontexts, hlinks⟩ := Prod.mk.inj (Option.some.inj hlinks)
  obtain ⟨link, hlink, hlabel⟩ := List.map_eq_singleton_iff.1 hlinks
  obtain ⟨hplaced, hrouted⟩ := ContextMap.isFinite_of_layout hlayout (by decide)
  obtain ⟨hfinite, hwritten⟩ := hrouted (by decide +kernel) (by decide +kernel) link
    (by rw [hlink]; exact List.mem_singleton_self link)
  refine ⟨m, options, layout, hlayout, by decide, by decide +kernel, by decide +kernel, hcontexts,
    hplaced, link, hlink, hfinite, hwritten, ?_⟩
  exact hfinite.isFinite_labelAnchor_iff.1 (Prod.mk.inj hlabel)

end ContextDiagram
