import ContextDiagram.Layout.Labels
import ContextDiagram.Proofs.Text.CommaList

namespace ContextDiagram.Layout

def tagsIn : Option String → List String
  | none => []
  | some text => text.splitOn ", "

theorem tagsIn_joinTags? {tags : List String} (h : ∀ tag ∈ tags, ',' ∉ tag.toList) :
    tagsIn (joinTags? tags) = tags := by
  cases tags with
  | nil => rfl
  | cons tag tags => exact Text.splitOn_intercalate (List.cons_ne_nil _ _) h

theorem Pattern.text_inj {p q : Pattern} (h : p.text = q.text) : p = q := by
  revert h
  cases p <;> cases q <;> decide

theorem Pattern.ofTags?_comm (source target : List String) :
    ofTags? source target = ofTags? target source := by
  simp only [ofTags?, Bool.and_comm, Bool.or_comm]

theorem Labels.ofRelationship_swap (r : Relationship) (direction : Direction) :
    Labels.ofRelationship ⟨r.target, direction, r.source⟩ =
      ⟨(Labels.ofRelationship r).middle, (Labels.ofRelationship r).target,
        (Labels.ofRelationship r).source⟩ := by
  simp only [Labels.ofRelationship, Pattern.ofTags?_comm r.target.tags]

theorem isStreamTag_iff {tag : String} : isStreamTag tag = true ↔ tag = "U" ∨ tag = "D" := by
  rw [isStreamTag, Bool.or_eq_true_iff, beq_iff_eq, beq_iff_eq]

theorem EndpointLabel.box_ofTags (leftOut tags : List String) :
    (ofTags leftOut tags).box = joinTags? (tags.filter fun tag => tag = "U" ∨ tag = "D") := by
  refine congrArg joinTags? (List.filter_congr ?_)
  intro tag _
  rw [Bool.eq_iff_iff, isStreamTag_iff, decide_eq_true_iff]

theorem EndpointLabel.body_ofTags (leftOut tags : List String) :
    (ofTags leftOut tags).body =
      joinTags? (tags.filter fun tag => ¬(tag = "U" ∨ tag = "D") ∧ tag ∉ leftOut) := by
  refine congrArg joinTags? (List.filter_congr ?_)
  intro tag _
  rw [Bool.eq_iff_iff, Bool.and_eq_true_iff, Bool.not_eq_true', ← Bool.not_eq_true,
    isStreamTag_iff, Bool.not_eq_true', ← Bool.not_eq_true, List.contains_iff_mem,
    decide_eq_true_iff]

/-- Whether the texts at an end list its tags in written order: the ends of a stream in the box and
the others beside it, where some may be left out. -/
structure EndpointLabel.Lists (label : EndpointLabel) (tags leftOut : List String) : Prop where
  box : tagsIn label.box = tags.filter fun tag => tag = "U" ∨ tag = "D"
  body : tagsIn label.body = tags.filter fun tag => ¬(tag = "U" ∨ tag = "D") ∧ tag ∉ leftOut

theorem EndpointLabel.lists_ofTags {tags : List String} (h : ∀ tag ∈ tags, ',' ∉ tag.toList)
    (leftOut : List String) : (ofTags leftOut tags).Lists tags leftOut := by
  have hcommas (p : String → Bool) : ∀ tag ∈ tags.filter p, ',' ∉ tag.toList :=
    fun tag htag => h tag (List.mem_filter.1 htag).1
  constructor
  · rw [box_ofTags, tagsIn_joinTags? (hcommas _)]
  · rw [body_ofTags, tagsIn_joinTags? (hcommas _)]

/-- Labels are the same from both sides. If no tag holds a comma, the labels of a relationship
without a text in the middle list all of its tags, and with one all but those of the pattern. -/
theorem labels_list_tags (r : Relationship) :
    let labels := Labels.ofRelationship r
    (∀ direction, Labels.ofRelationship ⟨r.target, direction, r.source⟩ =
      ⟨labels.middle, labels.target, labels.source⟩) ∧
    ((∀ tag ∈ r.source.tags ++ r.target.tags, ',' ∉ tag.toList) →
      (labels.middleText = none →
        labels.source.Lists r.source.tags [] ∧ labels.target.Lists r.target.tags []) ∧
      ∀ p : Pattern, labels.middleText = some p.text →
        labels.source.Lists r.source.tags p.tags ∧ labels.target.Lists r.target.tags p.tags) := by
  intro labels
  refine ⟨Labels.ofRelationship_swap r, ?_⟩
  intro h
  obtain ⟨hsource, htarget⟩ := List.forall_mem_append.1 h
  have hlists : labels.source.Lists r.source.tags ((labels.middle.map Pattern.tags).getD []) ∧
      labels.target.Lists r.target.tags ((labels.middle.map Pattern.tags).getD []) :=
    ⟨EndpointLabel.lists_ofTags hsource _, EndpointLabel.lists_ofTags htarget _⟩
  constructor
  · intro hmiddle
    rwa [Option.map_eq_none_iff.1 hmiddle] at hlists
  · intro p hmiddle
    obtain ⟨q, hq, htext⟩ := Option.map_eq_some_iff.1 hmiddle
    rwa [hq, Pattern.text_inj htext] at hlists

theorem labels_list_tags_shared_kernel :
    let labels := Labels.ofRelationship
      ⟨⟨"A", ["U", "SK", "OHS", "OHS"]⟩, .toTarget, ⟨"B", ["D", "SK", "P"]⟩⟩
    tagsIn labels.source.box = ["U"] ∧ tagsIn labels.source.body = ["OHS", "OHS"] ∧
      tagsIn labels.target.box = ["D"] ∧ tagsIn labels.target.body = ["P"] := by
  intro labels
  have h := labels_list_tags ⟨⟨"A", ["U", "SK", "OHS", "OHS"]⟩, .toTarget, ⟨"B", ["D", "SK", "P"]⟩⟩
  obtain ⟨hsource, htarget⟩ := (h.2 (by decide)).2 .sharedKernel (by decide)
  exact ⟨hsource.box, hsource.body, htarget.box, htarget.body⟩

end ContextDiagram.Layout
