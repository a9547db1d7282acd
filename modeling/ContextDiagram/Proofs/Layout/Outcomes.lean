import ContextDiagram.Proofs.Layout.Routing
import ContextDiagram.Proofs.Outcome

namespace ContextDiagram.Layout

open Plane

variable {α : Type}

def IsFirstOf (contexts : List (SizedContext α)) (id : String) (c : SizedContext α) : Prop :=
  c.id = id ∧ ∃ before after, contexts = before ++ c :: after ∧ ∀ b ∈ before, b.id ≠ id

def IsPlaced (contexts : List (SizedContext α)) (id : String) : Prop :=
  ∃ c center, IsFirstOf contexts id c ∧ c.center = some center

/-- What is wrong with an end of the relationship of a number. A context that comes behind the first
one of the same identifier does not matter, whether it has a place or not. -/
inductive EndFaults (contexts : List (SizedContext α)) (index : Nat) (id : String) :
    List RoutingFault → Prop
  | none : IsPlaced contexts id → EndFaults contexts index id []
  | unknown : (∀ c ∈ contexts, c.id ≠ id) → EndFaults contexts index id [.unknownContext index id]
  | unplaced {c : SizedContext α} : IsFirstOf contexts id c → c.center = .none →
      EndFaults contexts index id [.unplacedContext id]

theorem find?_id_eq_some_iff {contexts : List (SizedContext α)} {id : String} {c : SizedContext α} :
    (contexts.find? fun c => c.id == id) = some c ↔ IsFirstOf contexts id c := by
  rw [List.find?_eq_some_iff_append, IsFirstOf, beq_iff_eq]
  simp only [Bool.not_eq_true', beq_eq_false_iff_ne]

theorem IsFirstOf.mem {contexts : List (SizedContext α)} {id : String} {c : SizedContext α}
    (h : IsFirstOf contexts id c) : c ∈ contexts := by
  obtain ⟨-, before, after, rfl, -⟩ := h
  exact List.mem_append_right before List.mem_cons_self

theorem resolve_eq_ok_iff {contexts : List (SizedContext α)} {index : Nat} {id : String}
    {c : SizedContext α} {center : Point α} :
    resolve contexts index id = .ok (c, center) ↔
      IsFirstOf contexts id c ∧ c.center = some center := by
  rw [resolve, ← find?_id_eq_some_iff]
  cases contexts.find? fun c => c.id == id with
  | none =>
    constructor
    · intro h
      cases h
    · intro h
      cases h.1
  | some d =>
    dsimp only
    constructor
    · intro h
      split at h
      · cases h
      · next hcenter =>
        cases h
        exact ⟨rfl, hcenter⟩
    · intro h
      obtain ⟨hd, hcenter⟩ := h
      cases hd
      rw [hcenter]

theorem fault?_eq_none_iff {contexts : List (SizedContext α)} {index : Nat} {id : String} :
    fault? contexts index id = none ↔ IsPlaced contexts id := by
  simp only [IsPlaced, ← @resolve_eq_ok_iff α contexts index id, fault?]
  cases resolve contexts index id with
  | ok found => exact iff_of_true rfl ⟨found.1, found.2, rfl⟩
  | error fault =>
    constructor
    · intro h
      cases h
    · intro h
      obtain ⟨c, center, hresolve⟩ := h
      cases hresolve

theorem endFaults_fault? (contexts : List (SizedContext α)) (index : Nat) (id : String) :
    EndFaults contexts index id (fault? contexts index id).toList := by
  by_cases hplaced : IsPlaced contexts id
  · rw [fault?_eq_none_iff.2 hplaced]
    exact .none hplaced
  · rw [fault?, resolve]
    cases hfind : contexts.find? fun c => c.id == id with
    | none =>
      apply EndFaults.unknown
      intro c hc he
      exact List.find?_eq_none.1 hfind c hc (beq_iff_eq.2 he)
    | some c =>
      have hfirst := find?_id_eq_some_iff.1 hfind
      dsimp only
      cases hcenter : c.center with
      | none => exact .unplaced hfirst hcenter
      | some center => exact absurd ⟨c, center, hfirst, hcenter⟩ hplaced

theorem faultsOf_eq_nil_iff {contexts : List (SizedContext α)} {index : Nat} {r : Relationship} :
    faultsOf contexts index r = [] ↔
      IsPlaced contexts r.source.context ∧ IsPlaced contexts r.target.context := by
  rw [faultsOf, List.append_eq_nil_iff, Option.toList_eq_nil_iff, Option.toList_eq_nil_iff,
    fault?_eq_none_iff, fault?_eq_none_iff]

def RoutingFault.shift (count : Nat) : RoutingFault → RoutingFault
  | unknownContext index id => unknownContext (index + count) id
  | unplacedContext id => unplacedContext id

theorem resolve_add (contexts : List (SizedContext α)) (index count : Nat) (id : String) :
    resolve contexts (index + count) id =
      (resolve contexts index id).mapError (RoutingFault.shift count) := by
  rw [resolve, resolve]
  cases contexts.find? fun c => c.id == id with
  | none => rfl
  | some c =>
    dsimp only
    cases c.center with
    | none => rfl
    | some center => rfl

theorem fault?_add (contexts : List (SizedContext α)) (index count : Nat) (id : String) :
    fault? contexts (index + count) id =
      (fault? contexts index id).map (RoutingFault.shift count) := by
  rw [fault?, fault?, resolve_add]
  cases resolve contexts index id with
  | ok found => rfl
  | error fault => rfl

structure Outcome (α : Type) where
  link? : Option (Link α)
  faults : List RoutingFault

variable [EuclideanScalar α]

structure Outcome.Settles (o : Outcome α) (contexts : List (SizedContext α)) (index : Nat)
    (r : Relationship) : Prop where
  isSome_link_iff : o.link?.isSome = true ↔
    IsPlaced contexts r.source.context ∧ IsPlaced contexts r.target.context
  standsFor : ∀ link, o.link? = some link → link.StandsFor index r
  connects : ∀ link, o.link? = some link → ∃ source target,
    IsFirstOf contexts r.source.context source.1 ∧ source.1.center = some source.2 ∧
      IsFirstOf contexts r.target.context target.1 ∧ target.1.center = some target.2 ∧
        link = connect index r source target
  faults_eq : ∃ atSource atTarget, EndFaults contexts index r.source.context atSource ∧
    EndFaults contexts index r.target.context atTarget ∧ o.faults = atSource ++ atTarget

def outcomeOf (contexts : List (SizedContext α)) (index : Nat) (r : Relationship) : Outcome α where
  link? := (route contexts index r).toOption
  faults := faultsOf contexts index r

theorem exists_connect_of_route {contexts : List (SizedContext α)} {index : Nat} {r : Relationship}
    {link : Link α} (h : route contexts index r = .ok link) :
    ∃ source target, resolve contexts index r.source.context = .ok source ∧
      resolve contexts index r.target.context = .ok target ∧
        link = connect index r source target := by
  rw [route] at h
  split at h
  · next hsource htarget =>
    cases h
    exact ⟨_, _, hsource, htarget, rfl⟩
  · cases h
  · cases h
  · cases h

theorem Routed.exists_connect {contexts : List (SizedContext α)} {index : Nat}
    {rs : List Relationship} {links : List (Link α)} {faults : List RoutingFault}
    (h : Routed contexts index rs links faults) :
    ∀ link ∈ links, ∃ index r source target, source.1 ∈ contexts ∧ source.1.center = some source.2 ∧
      target.1 ∈ contexts ∧ target.1.center = some target.2 ∧
        link = connect index r source target := by
  induction h with
  | nil => exact List.forall_mem_nil _
  | @link index r rs link links faults hroute _ ih =>
    refine List.forall_mem_cons.2 ⟨?_, ih⟩
    obtain ⟨source, target, hsource, htarget, he⟩ := exists_connect_of_route hroute
    obtain ⟨hfirst, hcenter⟩ := resolve_eq_ok_iff.1 hsource
    obtain ⟨hfirst', hcenter'⟩ := resolve_eq_ok_iff.1 htarget
    exact ⟨index, r, source, target, hfirst.mem, hcenter, hfirst'.mem, hcenter', he⟩
  | faults _ _ ih => exact ih

section

variable {source target : SizedContext α × Point α} (index : Nat) (r : Relationship)

theorem connect_straight (h : source.2.isAligned target.2 = true) :
    (connect index r source target).curve = .straight ∧
      (connect index r source target).labelAnchor =
        (connect index r source target).sourceAnchor.midpoint
          (connect index r source target).targetAnchor :=
  ⟨if_pos h, if_pos h⟩

theorem connect_arc (h : source.2.isAligned target.2 = false) :
    (connect index r source target).curve =
        .arc ((connect index r source target).sourceAnchor.distance
          (connect index r source target).targetAnchor) ∧
      (connect index r source target).labelAnchor =
        arcMiddle (connect index r source target).sourceAnchor
          (connect index r source target).targetAnchor
          ((connect index r source target).sourceAnchor.distance
            (connect index r source target).targetAnchor) :=
  ⟨if_neg (Bool.eq_false_iff.1 h), if_neg (Bool.eq_false_iff.1 h)⟩

end

theorem settles_outcomeOf (contexts : List (SizedContext α)) (index : Nat) (r : Relationship) :
    (outcomeOf contexts index r).Settles contexts index r where
  isSome_link_iff := by
    rw [← @faultsOf_eq_nil_iff α contexts index r, outcomeOf]
    rcases route_cases contexts index r with ⟨link, hr, hnil⟩ | ⟨hr, hne⟩
    · rw [hr]
      exact iff_of_true rfl hnil
    · rw [hr]
      exact iff_of_false nofun hne
  standsFor link h := standsFor_of_route (Except.toOption_eq_some_iff.1 h)
  connects link h := by
    obtain ⟨source, target, hs, ht, he⟩ :=
      exists_connect_of_route (Except.toOption_eq_some_iff.1 h)
    obtain ⟨hsource, hp⟩ := resolve_eq_ok_iff.1 hs
    obtain ⟨htarget, hq⟩ := resolve_eq_ok_iff.1 ht
    exact ⟨source, target, hsource, hp, htarget, hq, he⟩
  faults_eq := ⟨_, _, endFaults_fault? _ _ _, endFaults_fault? _ _ _, rfl⟩

theorem routeAll_cons (contexts : List (SizedContext α)) (index : Nat) (r : Relationship)
    (rs : List Relationship) :
    routeAll contexts index (r :: rs) =
      ((outcomeOf contexts index r).link?.toList ++ (routeAll contexts (index + 1) rs).1,
        (outcomeOf contexts index r).faults ++ (routeAll contexts (index + 1) rs).2) := by
  rw [routeAll, outcomeOf]
  rcases route_cases contexts index r with ⟨link, hr, hnil⟩ | ⟨hr, -⟩
  · rw [hr, hnil]
    rfl
  · rw [hr]
    rfl

theorem routeAll_eq_outcomes (contexts : List (SizedContext α)) (index : Nat)
    (rs : List Relationship) :
    routeAll contexts index rs =
      (((rs.zipIdx index).map fun p => outcomeOf contexts p.2 p.1).filterMap Outcome.link?,
        ((rs.zipIdx index).map fun p => outcomeOf contexts p.2 p.1).flatMap Outcome.faults) := by
  induction rs generalizing index with
  | nil => rfl
  | cons r rs ih =>
    rw [routeAll_cons, ih, List.zipIdx_cons, List.map_cons, List.filterMap_cons, List.flatMap_cons]
    cases (outcomeOf contexts index r).link? with
    | none => rfl
    | some link => rfl

theorem routeAll_append (contexts : List (SizedContext α)) (index : Nat)
    (rs rs' : List Relationship) :
    routeAll contexts index (rs ++ rs') =
      ((routeAll contexts index rs).1 ++ (routeAll contexts (index + rs.length) rs').1,
        (routeAll contexts index rs).2 ++ (routeAll contexts (index + rs.length) rs').2) := by
  induction rs generalizing index with
  | nil => rfl
  | cons r rs ih =>
    have hindex : index + 1 + rs.length = index + (r :: rs).length := by
      rw [List.length_cons]
      omega
    rw [List.cons_append, routeAll_cons, routeAll_cons, ih, hindex, List.append_assoc,
      List.append_assoc]

def Link.shift (count : Nat) (link : Link α) : Link α :=
  { link with index := link.index + count }

theorem outcomeOf_add (contexts : List (SizedContext α)) (index count : Nat) (r : Relationship) :
    outcomeOf contexts (index + count) r =
      ⟨(outcomeOf contexts index r).link?.map (Link.shift count),
        (outcomeOf contexts index r).faults.map (RoutingFault.shift count)⟩ := by
  have hlink : (route contexts (index + count) r).toOption =
      (route contexts index r).toOption.map (Link.shift count) := by
    rw [route, route, resolve_add, resolve_add]
    cases resolve contexts index r.source.context with
    | ok source =>
      cases resolve contexts index r.target.context with
      | ok target => rfl
      | error fault => rfl
    | error fault =>
      cases resolve contexts index r.target.context with
      | ok target => rfl
      | error fault' => rfl
  have hfaults : faultsOf contexts (index + count) r =
      (faultsOf contexts index r).map (RoutingFault.shift count) := by
    rw [faultsOf, faultsOf, fault?_add, fault?_add, List.map_append, Option.toList_map,
      Option.toList_map]
  rw [outcomeOf, hlink, hfaults]
  rfl

theorem routeAll_add (contexts : List (SizedContext α)) (index count : Nat)
    (rs : List Relationship) :
    routeAll contexts (index + count) rs =
      ((routeAll contexts index rs).1.map (Link.shift count),
        (routeAll contexts index rs).2.map (RoutingFault.shift count)) := by
  induction rs generalizing index with
  | nil => rfl
  | cons r rs ih =>
    rw [routeAll_cons, routeAll_cons, outcomeOf_add, Nat.add_right_comm, ih, List.map_append,
      List.map_append, Option.toList_map]

/-- The links and the faults of relationships are those of each of them in turn. What is routed
behind other relationships is routed as it is alone, but for the numbers. -/
theorem routeAll_independent (contexts : List (SizedContext α)) (rs : List Relationship) :
    (∃ outcomes : List (Outcome α),
      List.Forall₂ (fun p o => o.Settles contexts p.2 p.1) rs.zipIdx outcomes ∧
        routeAll contexts 0 rs =
          (outcomes.filterMap Outcome.link?, outcomes.flatMap Outcome.faults)) ∧
      ∀ rs', routeAll contexts 0 (rs ++ rs') =
        ((routeAll contexts 0 rs).1 ++ (routeAll contexts 0 rs').1.map (Link.shift rs.length),
          (routeAll contexts 0 rs).2 ++
            (routeAll contexts 0 rs').2.map (RoutingFault.shift rs.length)) := by
  constructor
  · refine ⟨_, ?_, routeAll_eq_outcomes contexts 0 rs⟩
    rw [List.forall₂_map_right_iff]
    exact List.forall₂_same.2 fun p _ => settles_outcomeOf contexts p.2 p.1
  · intro rs'
    rw [routeAll_append, routeAll_add]

end ContextDiagram.Layout
