import Mathlib.Data.List.Forall2
import ContextDiagram.Layout.Routing

namespace ContextDiagram.Layout

open Plane

variable {α : Type}

def fault? (contexts : List (SizedContext α)) (index : Nat) (id : String) : Option RoutingFault :=
  match resolve contexts index id with
  | .ok _ => none
  | .error fault => some fault

def faultsOf (contexts : List (SizedContext α)) (index : Nat) (r : Relationship) :
    List RoutingFault :=
  (fault? contexts index r.source.context).toList ++ (fault? contexts index r.target.context).toList

/-- Among placed contexts an end can only be unknown. -/
theorem fault?_of_forall_center {contexts : List (SizedContext α)}
    (h : ∀ c ∈ contexts, c.center.isSome = true) (index : Nat) (id : String) :
    fault? contexts index id =
      if id ∈ contexts.map SizedContext.id then none else some (.unknownContext index id) := by
  rw [fault?, resolve]
  cases hc : contexts.find? fun c => c.id == id with
  | none =>
    have hid : id ∉ contexts.map SizedContext.id := by
      intro hmem
      obtain ⟨c, hc', rfl⟩ := List.mem_map.1 hmem
      exact List.find?_eq_none.1 hc c hc' (beq_self_eq_true _)
    rw [if_neg hid]
  | some c =>
    have hmem := List.mem_of_find?_eq_some hc
    have he := List.find?_some hc
    obtain ⟨center, hcenter⟩ := Option.isSome_iff_exists.1 (h c hmem)
    rw [if_pos (List.mem_map.2 ⟨c, hmem, eq_of_beq he⟩)]
    dsimp only
    rw [hcenter]

variable [EuclideanScalar α]

theorem route_cases (contexts : List (SizedContext α)) (index : Nat) (r : Relationship) :
    (∃ link, route contexts index r = .ok link ∧ faultsOf contexts index r = []) ∨
      (route contexts index r = .error (faultsOf contexts index r) ∧
        faultsOf contexts index r ≠ []) := by
  rw [route, faultsOf, fault?, fault?]
  cases resolve contexts index r.source.context with
  | ok source =>
    cases resolve contexts index r.target.context with
    | ok target => exact .inl ⟨_, rfl, rfl⟩
    | error fault => exact .inr ⟨rfl, List.cons_ne_nil _ _⟩
  | error fault =>
    cases resolve contexts index r.target.context with
    | ok target => exact .inr ⟨rfl, List.cons_ne_nil _ _⟩
    | error fault' => exact .inr ⟨rfl, List.cons_ne_nil _ _⟩

theorem routeAll_cons_snd (contexts : List (SizedContext α)) (index : Nat) (r : Relationship)
    (rs : List Relationship) :
    (routeAll contexts index (r :: rs)).2 =
      faultsOf contexts index r ++ (routeAll contexts (index + 1) rs).2 := by
  rw [routeAll]
  rcases route_cases contexts index r with ⟨link, hr, hf⟩ | ⟨hr, -⟩
  · rw [hr, hf]
    rfl
  · rw [hr]

structure Link.StandsFor (link : Link α) (index : Nat) (r : Relationship) : Prop where
  index_eq : link.index = index
  source_eq : link.source = r.source.context
  target_eq : link.target = r.target.context
  direction_eq : link.direction = r.direction
  labels_eq : link.labels = .ofRelationship r

theorem standsFor_of_route {contexts : List (SizedContext α)} {index : Nat} {r : Relationship}
    {link : Link α} (h : route contexts index r = .ok link) : link.StandsFor index r := by
  unfold route at h
  split at h
  · cases h
    exact ⟨rfl, rfl, rfl, rfl, rfl⟩
  · cases h
  · cases h
  · cases h

theorem ne_nil_of_route {contexts : List (SizedContext α)} {index : Nat} {r : Relationship}
    {found : List RoutingFault} (h : route contexts index r = .error found) : found ≠ [] := by
  rcases route_cases contexts index r with ⟨link, hr, -⟩ | ⟨hr, hne⟩
  · cases hr.symm.trans h
  · cases hr.symm.trans h
    exact hne

theorem eq_unknownContext_of_route {contexts : List (SizedContext α)}
    (hc : ∀ c ∈ contexts, c.center.isSome = true) {index : Nat} {r : Relationship}
    {found : List RoutingFault} (h : route contexts index r = .error found) :
    ∀ fault ∈ found, ∃ id, fault = .unknownContext index id := by
  have hend : ∀ id, ∀ fault ∈ (fault? contexts index id).toList,
      fault = .unknownContext index id := by
    intro id fault hfault
    rw [fault?_of_forall_center hc] at hfault
    split at hfault
    · cases hfault
    · exact List.mem_singleton.1 hfault
  rcases route_cases contexts index r with ⟨link, hr, -⟩ | ⟨hr, -⟩
  · cases hr.symm.trans h
  · cases hr.symm.trans h
    intro fault hfault
    rcases List.mem_append.1 hfault with hs | ht
    · exact ⟨_, hend _ _ hs⟩
    · exact ⟨_, hend _ _ ht⟩

/-- Relationships that are numbered from an index on, with the links of some of them and the faults
of the others. -/
inductive Routed (contexts : List (SizedContext α)) :
    Nat → List Relationship → List (Link α) → List RoutingFault → Prop
  | nil {index : Nat} : Routed contexts index [] [] []
  | link {index : Nat} {r : Relationship} {rs : List Relationship} {link : Link α}
      {links : List (Link α)} {faults : List RoutingFault} :
      route contexts index r = .ok link → Routed contexts (index + 1) rs links faults →
      Routed contexts index (r :: rs) (link :: links) faults
  | faults {index : Nat} {r : Relationship} {rs : List Relationship} {found : List RoutingFault}
      {links : List (Link α)} {faults : List RoutingFault} :
      route contexts index r = .error found → Routed contexts (index + 1) rs links faults →
      Routed contexts index (r :: rs) links (found ++ faults)

theorem routed_routeAll (contexts : List (SizedContext α)) (index : Nat) (rs : List Relationship) :
    Routed contexts index rs (routeAll contexts index rs).1 (routeAll contexts index rs).2 := by
  induction rs generalizing index with
  | nil => exact .nil
  | cons r rs ih =>
    rw [routeAll]
    cases hr : route contexts index r with
    | ok link => exact .link hr (ih (index + 1))
    | error found => exact .faults hr (ih (index + 1))

section

variable {contexts : List (SizedContext α)} {index : Nat} {rs : List Relationship}
  {links : List (Link α)} {faults : List RoutingFault}

theorem Routed.index_bounds (h : Routed contexts index rs links faults) :
    ∀ link ∈ links, index ≤ link.index ∧ link.index < index + rs.length := by
  induction h with
  | nil => exact List.forall_mem_nil _
  | link hr _ ih =>
    have hindex := (standsFor_of_route hr).index_eq
    rw [List.length_cons]
    refine List.forall_mem_cons.2 ⟨by omega, ?_⟩
    intro link hlink
    have hbounds := ih link hlink
    omega
  | faults _ _ ih =>
    intro link hlink
    have hbounds := ih link hlink
    rw [List.length_cons]
    omega

theorem Routed.fault_bounds (h : Routed contexts index rs links faults)
    (hc : ∀ c ∈ contexts, c.center.isSome = true) :
    ∀ fault ∈ faults, ∃ i id, fault = .unknownContext i id ∧ index ≤ i ∧ i < index + rs.length := by
  induction h with
  | nil => nofun
  | link _ _ ih =>
    intro fault hfault
    obtain ⟨i, id, he, hle, hlt⟩ := ih fault hfault
    rw [List.length_cons]
    exact ⟨i, id, he, by omega, by omega⟩
  | faults hr _ ih =>
    intro fault hfault
    rw [List.length_cons]
    rcases List.mem_append.1 hfault with hfound | hrest
    · obtain ⟨id, he⟩ := eq_unknownContext_of_route hc hr fault hfound
      exact ⟨_, id, he, by omega, by omega⟩
    · obtain ⟨i, id, he, hle, hlt⟩ := ih fault hrest
      exact ⟨i, id, he, by omega, by omega⟩

/-- A number has one link and no fault, or faults and no link. -/
def IsSettled (links : List (Link α)) (faults : List RoutingFault) (i : Nat) : Prop :=
  (links.countP (·.index == i) = 1 ∧ ∀ id, .unknownContext i id ∉ faults) ∨
    (links.countP (·.index == i) = 0 ∧ ∃ id, .unknownContext i id ∈ faults)

theorem Routed.countP_eq_zero (h : Routed contexts index rs links faults) {i : Nat}
    (hi : i < index) : links.countP (·.index == i) = 0 := by
  apply List.countP_eq_zero.2
  intro link hlink he
  have hbounds := h.index_bounds link hlink
  have hindex : link.index = i := eq_of_beq he
  omega

theorem Routed.not_mem_faults (h : Routed contexts index rs links faults)
    (hc : ∀ c ∈ contexts, c.center.isSome = true) {i : Nat} (hi : i < index) (id : String) :
    .unknownContext i id ∉ faults := by
  intro hfault
  obtain ⟨j, id', he, hle, -⟩ := h.fault_bounds hc _ hfault
  cases he
  omega

theorem Routed.isSettled (h : Routed contexts index rs links faults)
    (hc : ∀ c ∈ contexts, c.center.isSome = true) {i : Nat} (hle : index ≤ i)
    (hlt : i < index + rs.length) : IsSettled links faults i := by
  induction h with
  | nil =>
    rw [List.length_nil] at hlt
    omega
  | @link index r rs link links faults hr hrest ih =>
    have hindex := (standsFor_of_route hr).index_eq
    rw [List.length_cons] at hlt
    rw [IsSettled, List.countP_cons]
    by_cases hi : i = index
    · have hcount := hrest.countP_eq_zero (show i < index + 1 by omega)
      have hfaults := hrest.not_mem_faults hc (show i < index + 1 by omega)
      rw [hcount, hindex, hi, beq_self_eq_true]
      exact .inl ⟨rfl, hi ▸ hfaults⟩
    · have hne : (link.index == i) = false := beq_eq_false_iff_ne.2 (by omega)
      rw [hne]
      exact ih (by omega) (by omega)
  | @faults index r rs found links faults hr hrest ih =>
    have hfound := eq_unknownContext_of_route hc hr
    rw [List.length_cons] at hlt
    by_cases hi : i = index
    · have hcount := hrest.countP_eq_zero (show i < index + 1 by omega)
      obtain ⟨fault, hfault⟩ := List.exists_mem_of_ne_nil found (ne_nil_of_route hr)
      obtain ⟨id, rfl⟩ := hfound fault hfault
      refine .inr ⟨hcount, id, ?_⟩
      rw [hi]
      exact List.mem_append_left _ hfault
    · have hmem : ∀ id, .unknownContext i id ∈ found ++ faults ↔ .unknownContext i id ∈ faults := by
        intro id
        rw [List.mem_append]
        apply or_iff_right
        intro hfault
        obtain ⟨id', he⟩ := hfound _ hfault
        cases he
        exact hi rfl
      simp only [IsSettled, hmem]
      exact ih (by omega) (by omega)

theorem Routed.forall₂_standsFor (h : Routed contexts index rs links faults) (hf : faults = []) :
    List.Forall₂ (fun p link => link.StandsFor p.2 p.1) (rs.zipIdx index) links := by
  induction h with
  | nil => exact .nil
  | link hr _ ih =>
    rw [List.zipIdx_cons]
    exact .cons (standsFor_of_route hr) (ih hf)
  | faults hr _ _ =>
    obtain ⟨hfound, -⟩ := List.append_eq_nil_iff.1 hf
    exact absurd hfound (ne_nil_of_route hr)

end

end ContextDiagram.Layout
