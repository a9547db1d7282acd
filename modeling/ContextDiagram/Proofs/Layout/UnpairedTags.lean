import ContextDiagram.Proofs.Layout.TagTexts

namespace ContextDiagram.Layout

def partner? : String → Option String
  | "SK" => some "SK"
  | "P" => some "P"
  | "C" => some "S"
  | "S" => some "C"
  | _ => none

def Shows (text : Option String) (tag : String) : Prop :=
  ∃ t, text = some t ∧ Text.IsItemOf tag t

/-- Whether every tag of an end, stream tags apart, that is missing in the text beside the end has
its partner at the other end. -/
def KeepsUnpaired (tags other : List String) (label : EndpointLabel) : Prop :=
  ∀ tag ∈ tags, tag ≠ "U" → tag ≠ "D" → ¬Shows label.body tag →
    ∃ partner, partner? tag = some partner ∧ partner ∈ other

/-- Whether the tags of two ends make up a pattern, other patterns apart. -/
def Pattern.Joins : Pattern → List String → List String → Prop
  | sharedKernel, tags, other => "SK" ∈ tags ∧ "SK" ∈ other
  | partnership, tags, other => "P" ∈ tags ∧ "P" ∈ other
  | customerSupplier, tags, other => "C" ∈ tags ∧ "S" ∈ other ∨ "S" ∈ tags ∧ "C" ∈ other

/-- Whether an end is both customer and supplier while the other end is one of the two, and no other
pattern comes first. -/
def PlaysBothRoles (tags other : List String) : Prop :=
  "C" ∈ tags ∧ "S" ∈ tags ∧ ("C" ∈ other ↔ "S" ∉ other) ∧
    ¬Pattern.sharedKernel.Joins tags other ∧ ¬Pattern.partnership.Joins tags other

theorem Pattern.ofTags?_cases (tags other : List String) :
    (ofTags? tags other = some sharedKernel ∧ sharedKernel.Joins tags other) ∨
    (ofTags? tags other = some partnership ∧ partnership.Joins tags other) ∨
    (¬sharedKernel.Joins tags other ∧ ¬partnership.Joins tags other ∧
      ((ofTags? tags other = some customerSupplier ∧ customerSupplier.Joins tags other) ∨
      (ofTags? tags other = none ∧ ¬customerSupplier.Joins tags other))) := by
  simp only [ofTags?, Joins, Bool.and_eq_true, Bool.or_eq_true, List.contains_iff_mem]
  by_cases hsk : "SK" ∈ tags ∧ "SK" ∈ other
  · exact .inl ⟨if_pos hsk, hsk⟩
  · rw [if_neg hsk]
    by_cases hp : "P" ∈ tags ∧ "P" ∈ other
    · exact .inr (.inl ⟨if_pos hp, hp⟩)
    · rw [if_neg hp]
      refine .inr (.inr ⟨hsk, hp, ?_⟩)
      split
      · next hcs => exact .inl ⟨rfl, hcs⟩
      · next hcs => exact .inr ⟨rfl, hcs⟩

def leftOut (tags other : List String) : List String :=
  ((Pattern.ofTags? tags other).map Pattern.tags).getD []

section

variable {tags other : List String} {tag : String}

theorem shows_joinTags? (h : tag ∈ tags) : Shows (joinTags? tags) tag := by
  cases tags with
  | nil => cases h
  | cons first tags => exact ⟨_, rfl, Text.isItemOf_intercalate h⟩

theorem shows_or_mem_leftOut (htag : tag ∈ tags) (hu : tag ≠ "U") (hd : tag ≠ "D")
    (out : List String) : Shows (EndpointLabel.ofTags out tags).body tag ∨ tag ∈ out := by
  by_cases hout : tag ∈ out
  · exact .inr hout
  · left
    rw [EndpointLabel.body_ofTags]
    apply shows_joinTags?
    exact List.mem_filter.2 ⟨htag, decide_eq_true ⟨not_or.2 ⟨hu, hd⟩, hout⟩⟩

/-- A tag that the text in the middle stands for has its partner at the other end, unless its own
end has the partner too. -/
theorem hasPartner_of_mem_leftOut (htag : tag ∈ tags) (h : tag ∈ leftOut tags other) :
    (∃ partner, partner? tag = some partner ∧ partner ∈ other) ∨ PlaysBothRoles tags other := by
  rw [leftOut] at h
  rcases Pattern.ofTags?_cases tags other with
    ⟨hp, hjoins⟩ | ⟨hp, hjoins⟩ | ⟨hsk, hpart, ⟨hp, hjoins⟩ | ⟨hp, -⟩⟩
  · rw [hp] at h
    obtain rfl := List.mem_singleton.1 h
    exact .inl ⟨"SK", rfl, hjoins.2⟩
  · rw [hp] at h
    obtain rfl := List.mem_singleton.1 h
    exact .inl ⟨"P", rfl, hjoins.2⟩
  · rw [hp] at h
    rcases List.mem_pair.1 h with rfl | rfl
    · by_cases hs : "S" ∈ other
      · exact .inl ⟨"S", rfl, hs⟩
      · obtain ⟨-, hs'⟩ | ⟨hs', hc⟩ := hjoins
        · exact absurd hs' hs
        · exact .inr ⟨htag, hs', iff_of_true hc hs, hsk, hpart⟩
    · by_cases hc : "C" ∈ other
      · exact .inl ⟨"C", rfl, hc⟩
      · obtain ⟨hc', hs⟩ | ⟨-, hc'⟩ := hjoins
        · exact .inr ⟨hc', htag, iff_of_false hc (not_not.2 hs), hsk, hpart⟩
        · exact absurd hc' hc
  · rw [hp] at h
    cases h

theorem not_shows_of_mem_leftOut (hcommas : ∀ tag ∈ tags, ',' ∉ tag.toList) (htag : tag ∈ tags)
    {out : List String} (h : tag ∈ out) : ¬Shows (EndpointLabel.ofTags out tags).body tag := by
  rintro ⟨text, htext, hitem⟩
  have hbody := (EndpointLabel.lists_ofTags hcommas out).body
  rw [htext] at hbody
  have hmem := hitem.mem_splitOn (hcommas tag htag)
  rw [tagsIn] at hbody
  rw [hbody] at hmem
  have hkept := of_decide_eq_true (List.mem_filter.1 hmem).2
  exact hkept.2 h

theorem keepsUnpaired_ofTags (h : ¬PlaysBothRoles tags other) :
    KeepsUnpaired tags other (.ofTags (leftOut tags other) tags) := by
  intro tag htag hu hd hmissing
  have hout := (shows_or_mem_leftOut htag hu hd (leftOut tags other)).resolve_left hmissing
  exact (hasPartner_of_mem_leftOut htag hout).resolve_right h

theorem not_keepsUnpaired_ofTags (hcommas : ∀ tag ∈ tags, ',' ∉ tag.toList)
    (h : PlaysBothRoles tags other) :
    ¬KeepsUnpaired tags other (.ofTags (leftOut tags other) tags) := by
  obtain ⟨hc, hs, hone, hsk, hp⟩ := h
  have hjoins : Pattern.customerSupplier.Joins tags other := by
    by_cases hs' : "S" ∈ other
    · exact .inl ⟨hc, hs'⟩
    · exact .inr ⟨hs, hone.2 hs'⟩
  have hout : leftOut tags other = ["C", "S"] := by
    rcases Pattern.ofTags?_cases tags other with
      ⟨-, hsk'⟩ | ⟨-, hp'⟩ | ⟨-, -, ⟨hcs, -⟩ | ⟨-, hcs⟩⟩
    · exact absurd hsk' hsk
    · exact absurd hp' hp
    · rw [leftOut, hcs]
      rfl
    · exact absurd hjoins hcs
  intro hkeeps
  rw [hout] at hkeeps
  by_cases hs' : "S" ∈ other
  · have hpattern : "S" ∈ ["C", "S"] := by decide
    have hmissing := not_shows_of_mem_leftOut hcommas hs hpattern
    obtain ⟨partner, hpartner, hmem⟩ := hkeeps "S" hs (by decide) (by decide) hmissing
    cases hpartner
    exact hone.1 hmem hs'
  · have hpattern : "C" ∈ ["C", "S"] := by decide
    have hmissing := not_shows_of_mem_leftOut hcommas hc hpattern
    obtain ⟨partner, hpartner, hmem⟩ := hkeeps "C" hc (by decide) (by decide) hmissing
    cases hpartner
    exact hs' hmem

end

/-- An end keeps every tag without a partner at the other end, unless it plays both roles of a
customer/supplier pattern; then it loses one, provided that no tag holds a comma. -/
theorem keepsUnpaired_ofRelationship (r : Relationship) :
    let labels := Labels.ofRelationship r
    (¬PlaysBothRoles r.source.tags r.target.tags →
      KeepsUnpaired r.source.tags r.target.tags labels.source) ∧
    (¬PlaysBothRoles r.target.tags r.source.tags →
      KeepsUnpaired r.target.tags r.source.tags labels.target) ∧
    ((∀ tag ∈ r.source.tags ++ r.target.tags, ',' ∉ tag.toList) →
      (PlaysBothRoles r.source.tags r.target.tags →
        ¬KeepsUnpaired r.source.tags r.target.tags labels.source) ∧
      (PlaysBothRoles r.target.tags r.source.tags →
        ¬KeepsUnpaired r.target.tags r.source.tags labels.target)) := by
  intro labels
  have hsource : labels.source = .ofTags (leftOut r.source.tags r.target.tags) r.source.tags := rfl
  have htarget : labels.target = .ofTags (leftOut r.target.tags r.source.tags) r.target.tags := by
    rw [leftOut, Pattern.ofTags?_comm]
    rfl
  rw [hsource, htarget]
  refine ⟨keepsUnpaired_ofTags, keepsUnpaired_ofTags, ?_⟩
  intro hcommas
  obtain ⟨hcommas, hcommas'⟩ := List.forall_mem_append.1 hcommas
  exact ⟨not_keepsUnpaired_ofTags hcommas, not_keepsUnpaired_ofTags hcommas'⟩

/-- A supplier that is a customer as well loses its `S` to a supplier that is not. -/
theorem exists_unpaired_tag_missing :
    ¬KeepsUnpaired ["C", "S"] ["S"]
      (Labels.ofRelationship ⟨⟨"A", ["C", "S"]⟩, .toTarget, ⟨"B", ["S"]⟩⟩).source := by
  intro h
  have hmissing : ¬Shows none "S" := nofun
  obtain ⟨partner, hpartner, hmem⟩ := h "S" (by decide) (by decide) (by decide) hmissing
  cases hpartner
  exact absurd hmem (by decide)

end ContextDiagram.Layout
