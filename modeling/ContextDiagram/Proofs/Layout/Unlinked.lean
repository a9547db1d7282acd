import ContextDiagram.Proofs.Drawing
import ContextDiagram.Proofs.Layout.Placement
import ContextDiagram.Proofs.Layout.Routing

namespace ContextDiagram

open Layout Plane

def Relationship.isBetweenUndeclared (declared : List String) (r : Relationship) : Bool :=
  !declared.contains r.source.context && !declared.contains r.target.context

section

variable {α : Type}

/-- The number of relationships, out of `count` from an index on, that have no link. -/
def Layout.unlinkedFrom (links : List (Link α)) (index count : Nat) : Nat :=
  (List.range' index count).countP fun i => !links.any (·.index == i)

def MapLayout.unlinked (layout : MapLayout α) (m : ContextMap) : Nat :=
  unlinkedFrom layout.links 0 m.relationships.length

theorem Layout.unlinkedFrom_succ (links : List (Link α)) (index count : Nat) :
    unlinkedFrom links index (count + 1) =
      unlinkedFrom links (index + 1) count + if links.any (·.index == index) then 0 else 1 := by
  rw [unlinkedFrom, List.range'_succ, List.countP_cons, unlinkedFrom]
  cases links.any (·.index == index) with
  | true => rfl
  | false => rfl

theorem Layout.unlinkedFrom_cons_of_lt {link : Link α} {index : Nat} (h : link.index < index)
    (links : List (Link α)) (count : Nat) :
    unlinkedFrom (link :: links) index count = unlinkedFrom links index count := by
  apply List.countP_congr
  intro i hi
  have hle := (List.mem_range'_1.1 hi).1
  have hne : (link.index == i) = false := beq_eq_false_iff_ne.2 (by omega)
  rw [List.any_cons, hne, Bool.false_or]

theorem Layout.length_faultsOf {contexts : List (SizedContext α)}
    (h : ∀ c ∈ contexts, c.center.isSome = true) (index : Nat) (r : Relationship) :
    (faultsOf contexts index r).length =
      (if faultsOf contexts index r = [] then 0 else 1) +
        if r.isBetweenUndeclared (contexts.map SizedContext.id) then 1 else 0 := by
  rw [faultsOf, fault?_of_forall_center h, fault?_of_forall_center h,
    Relationship.isBetweenUndeclared, List.contains_eq_mem, List.contains_eq_mem]
  by_cases hs : r.source.context ∈ contexts.map SizedContext.id
  all_goals by_cases ht : r.target.context ∈ contexts.map SizedContext.id
  all_goals simp [hs, ht]

variable [EuclideanScalar α]

theorem Layout.Routed.length_faults {contexts : List (SizedContext α)} {index : Nat}
    {rs : List Relationship} {links : List (Link α)} {faults : List RoutingFault}
    (h : Routed contexts index rs links faults) (hc : ∀ c ∈ contexts, c.center.isSome = true) :
    faults.length = unlinkedFrom links index rs.length +
      rs.countP (Relationship.isBetweenUndeclared (contexts.map SizedContext.id)) := by
  induction h with
  | nil => rfl
  | @link index r rs link links faults hr hrest ih =>
    have hindex := (standsFor_of_route hr).index_eq
    have hlinked : (link :: links).any (·.index == index) = true := by
      rw [List.any_cons, hindex, beq_self_eq_true, Bool.true_or]
    have hlength := length_faultsOf hc index r
    have hnil : faultsOf contexts index r = [] := by
      rcases route_cases contexts index r with ⟨link', -, hnil⟩ | ⟨hr', -⟩
      · exact hnil
      · cases hr.symm.trans hr'
    rw [hnil, if_pos rfl, List.length_nil] at hlength
    rw [ih, List.length_cons, unlinkedFrom_succ, if_pos hlinked,
      unlinkedFrom_cons_of_lt (by omega), List.countP_cons]
    omega
  | @faults index r rs found links faults hr hrest ih =>
    -- The links found so far are those of later relationships.
    have hunlinked : links.any (·.index == index) = false := by
      apply List.any_eq_false.2
      intro link hlink
      have hbounds := hrest.index_bounds link hlink
      rw [beq_iff_eq]
      omega
    have hlength := length_faultsOf hc index r
    rcases route_cases contexts index r with ⟨link, hr', -⟩ | ⟨hr', hne⟩
    · cases hr.symm.trans hr'
    · cases hr.symm.trans hr'
      rw [if_neg hne] at hlength
      rw [List.length_append, ih, hlength, List.length_cons, unlinkedFrom_succ, hunlinked,
        List.countP_cons]
      simp only [Bool.false_eq_true, if_false]
      omega

theorem ContextMap.length_faults_of_layout {m : ContextMap} {options : Options α}
    {layout : MapLayout α} (h : m.layout options = .ok layout) :
    layout.faults.length = layout.unlinked m +
      m.relationships.countP
        (Relationship.isBetweenUndeclared (m.contexts.map BoundedContext.id)) := by
  obtain ⟨placed, hplaced, rfl⟩ := layout_eq_ok_iff.1 h
  have harePlaced := arePlaced_of_distribute hplaced
  have hids : placed.map SizedContext.id = m.contexts.map BoundedContext.id := by
    rw [harePlaced.map_id, List.map_map]
    rfl
  rw [← hids]
  exact (routed_routeAll placed 0 m.relationships).length_faults harePlaced.isSome_center

end

/-- The number in the report of a map without a drawing is that of the relationships without a link,
and once more that of those without a declared end. -/
theorem message_of_unrouted {m : ContextMap} {settings : Settings} {measure : Text.Measure Float32}
    {faults : List RoutingFault} (h : m.drawing settings measure = .error (.unrouted faults)) :
    ∃ layout count, m.layoutWith settings measure = .ok layout ∧
      (Failure.unrouted faults).message =
        toString (count : Nat) ++ " relationship(s) could not be routed" ∧
      count = layout.unlinked m + m.relationships.countP
        (Relationship.isBetweenUndeclared (m.contexts.map BoundedContext.id)) ∧
      (count = layout.unlinked m ↔ ∀ r ∈ m.relationships,
        r.isBetweenUndeclared (m.contexts.map BoundedContext.id) = false) := by
  obtain ⟨layout, hl, rfl, -⟩ := ContextMap.drawing_eq_unrouted_iff.1 h
  have hlength := ContextMap.length_faults_of_layout (ContextMap.layoutWith_eq_ok_iff.1 hl)
  refine ⟨layout, layout.faults.length, hl, rfl, hlength, ?_⟩
  rw [hlength, Nat.add_eq_left, List.countP_eq_zero]
  simp only [Bool.not_eq_true]

theorem message_of_unrouted_three : ∃ (m : ContextMap) (layout : MapLayout Float32)
    (faults : List RoutingFault), m.contexts.map BoundedContext.id = ["A"] ∧
      m.relationships.length = 3 ∧
      m.drawing .standard (.constant 10 10) = .error (.unrouted faults) ∧
      m.layoutWith .standard (.constant 10 10) = .ok layout ∧ layout.unlinked m = 2 ∧
      (Failure.unrouted faults).message = "3 relationship(s) could not be routed" := by
  let m : ContextMap := {
    contexts := [⟨"A", none⟩]
    relationships := [⟨⟨"A", []⟩, .toTarget, ⟨"A", []⟩⟩, ⟨⟨"A", []⟩, .toBoth, ⟨"B", ["U"]⟩⟩,
      ⟨⟨"B", []⟩, .toSource, ⟨"B", []⟩⟩] }
  have hsome : ((m.layoutWith .standard (.constant 10 10)).toOption.map fun layout =>
      (layout.unlinked m, layout.faults)) = some (2,
        [.unknownContext 1 "B", .unknownContext 2 "B", .unknownContext 2 "B"]) := by
    decide +kernel
  obtain ⟨layout, hsuccess, he⟩ := Option.map_eq_some_iff.1 hsome
  obtain ⟨hunlinked, hfaults⟩ := Prod.mk.inj he
  have hlayout := Except.toOption_eq_some_iff.1 hsuccess
  have hdrawing : m.drawing .standard (.constant 10 10) = .error (.unrouted layout.faults) := by
    apply ContextMap.drawing_eq_unrouted_iff.2
    refine ⟨layout, hlayout, rfl, ?_⟩
    rw [hfaults]
    exact List.cons_ne_nil _ _
  obtain ⟨layout', count, hlayout', hmessage, hcount, -⟩ := message_of_unrouted hdrawing
  cases hlayout.symm.trans hlayout'
  have hundeclared : m.relationships.countP
      (Relationship.isBetweenUndeclared (m.contexts.map BoundedContext.id)) = 1 := by
    decide +kernel
  rw [hunlinked, hundeclared] at hcount
  rw [hcount] at hmessage
  exact ⟨m, layout, layout.faults, rfl, rfl, hdrawing, hlayout, hunlinked, hmessage⟩

theorem exists_relationship_counted_twice : ∃ (m : ContextMap) (layout : MapLayout Float32)
    (faults : List RoutingFault),
    ContextMap.ofSource "ContextMap { A -> B }" = .ok m ∧ m.relationships.length = 1 ∧
      m.layoutWith .standard (.constant 10 10) = .ok layout ∧ layout.unlinked m = 1 ∧
      m.drawing .standard (.constant 10 10) = .error (.unrouted faults) ∧
      (Failure.unrouted faults).message = "2 relationship(s) could not be routed" := by
  let m : ContextMap := { relationships := [⟨⟨"A", []⟩, .toTarget, ⟨"B", []⟩⟩] }
  have hm : (ContextMap.ofSource "ContextMap { A -> B }").toOption = some m := by
    decide +kernel
  have hsome : ((m.layoutWith .standard (.constant 10 10)).toOption.map fun layout =>
      (layout.unlinked m, layout.faults)) =
        some (1, [.unknownContext 0 "A", .unknownContext 0 "B"]) := by
    decide +kernel
  obtain ⟨layout, hsuccess, he⟩ := Option.map_eq_some_iff.1 hsome
  obtain ⟨hunlinked, hfaults⟩ := Prod.mk.inj he
  have hlayout := Except.toOption_eq_some_iff.1 hsuccess
  have hdrawing : m.drawing .standard (.constant 10 10) = .error (.unrouted layout.faults) := by
    apply ContextMap.drawing_eq_unrouted_iff.2
    refine ⟨layout, hlayout, rfl, ?_⟩
    rw [hfaults]
    exact List.cons_ne_nil _ _
  refine ⟨m, layout, layout.faults, Except.toOption_eq_some_iff.1 hm, rfl, hlayout, hunlinked,
    hdrawing, ?_⟩
  rw [hfaults]
  rfl

end ContextDiagram
