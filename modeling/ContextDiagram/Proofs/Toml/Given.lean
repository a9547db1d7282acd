import ContextDiagram.Proofs.Toml.DistinctKeys
import Mathlib.Data.List.Basic

namespace ContextDiagram.Toml

/-- A field of a record, with the names of all its fields in order. -/
structure Field where
  names : List String
  name : String
  nodup : names.Nodup := by decide
  mem : name ∈ names := by decide

namespace Value

/-- A table gives a value for a field under its name, an array in its place. -/
inductive GivesField (f : Field) : Value → Value → Prop
  | named {entries : Table} {v : Value} : (f.name, v) ∈ entries → GivesField f (table entries) v
  | placed {items : List Value} {place : Nat} {v : Value} : f.names[place]? = some f.name →
      items[place]? = some v → GivesField f (array items) v

/-- What is given for a field, for a field of that, and so on. -/
inductive Gives : List Field → Value → Value → Prop
  | whole (v : Value) : Gives [] v v
  | inside {f : Field} {path : List Field} {v w u : Value} : v.GivesField f w → Gives path w u →
      Gives (f :: path) v u

def field? (f : Field) : Value → Option Value
  | table entries => entries.lookup f.name
  | array items => items[f.names.idxOf f.name]?
  | _ => none

def given? : List Field → Value → Option Value
  | [], v => some v
  | f :: path, v => (v.field? f).bind (given? path)

variable {f : Field} {v w : Value}

theorem HasDistinctKeys.of_givesField (hv : v.HasDistinctKeys) (h : v.GivesField f w) :
    w.HasDistinctKeys := by
  cases h with
  | named hmem =>
    cases hv with
    | scalar hv => exact absurd rfl (hv.ne_table _)
    | table _ hentries => exact hentries _ hmem
  | placed _ hitem =>
    cases hv with
    | scalar hv => exact absurd rfl (hv.ne_array _)
    | array hitems => exact hitems _ (List.mem_of_getElem? hitem)

theorem field?_eq_some_iff (hv : v.HasDistinctKeys) : v.field? f = some w ↔ v.GivesField f w := by
  cases hv with
  | scalar hv =>
    cases v with
    | array => exact absurd rfl (hv.ne_array _)
    | table => exact absurd rfl (hv.ne_table _)
    | _ => exact iff_of_false nofun nofun
  | array =>
    have hidxOf := List.getElem?_idxOf f.mem
    constructor
    · exact .placed hidxOf
    · rintro (_ | ⟨hplace, hitem⟩)
      have hlt := (List.getElem?_eq_some_iff.1 hplace).1
      have he := (List.getElem?_inj hlt f.nodup).1 (hplace.trans hidxOf.symm)
      rwa [field?, ← he]
  | table hnodup =>
    rw [field?, lookup_eq_some_iff_mem hnodup]
    constructor
    · exact .named
    · rintro (hmem | _)
      exact hmem

theorem given?_singleton (f : Field) (v : Value) : v.given? [f] = v.field? f :=
  Option.bind_fun_some _

theorem given?_append (path path' : List Field) (v : Value) :
    v.given? (path ++ path') = (v.given? path).bind (given? path') := by
  induction path generalizing v with
  | nil => rfl
  | cons f path ih =>
    rw [List.cons_append, given?, given?, Option.bind_assoc]
    exact congrArg (Option.bind _) (funext ih)

theorem given?_eq_some_iff {path : List Field} (hv : v.HasDistinctKeys) :
    v.given? path = some w ↔ v.Gives path w := by
  induction path generalizing v with
  | nil =>
    constructor
    · intro h
      cases h
      exact .whole _
    · intro h
      cases h
      rfl
  | cons f path ih =>
    rw [given?, Option.bind_eq_some_iff]
    constructor
    · rintro ⟨u, hu, hw⟩
      have hu := (field?_eq_some_iff hv).1 hu
      exact .inside hu ((ih (hv.of_givesField hu)).1 hw)
    · rintro (_ | ⟨hu, hw⟩)
      exact ⟨_, (field?_eq_some_iff hv).2 hu, (ih (hv.of_givesField hu)).2 hw⟩

theorem given?_eq_none_iff {path : List Field} (hv : v.HasDistinctKeys) :
    v.given? path = none ↔ ∀ w, ¬v.Gives path w := by
  simp only [Option.eq_none_iff_forall_ne_some, ne_eq, given?_eq_some_iff hv]

theorem lookup_zip {names : List String} {name : String} (h : name ∈ names) (items : List Value) :
    (names.zip items).lookup name = items[names.idxOf name]? := by
  induction names generalizing items with
  | nil => cases h
  | cons first names ih =>
    cases items with
    | nil => rfl
    | cons item items =>
      rw [List.zip_cons_cons, List.lookup_cons, List.idxOf_cons]
      by_cases he : first = name
      · rw [he, beq_self_eq_true]
        rfl
      · rw [beq_false_of_ne he, beq_false_of_ne (Ne.symm he)]
        exact ih (List.mem_of_ne_of_mem (Ne.symm he) h) items

theorem lookup_of_record? {fields : Table} (h : v.record? f.names = some fields) :
    fields.lookup f.name = v.field? f := by
  cases v with
  | table entries =>
    rw [record?] at h
    split at h
    · cases h
      rfl
    · cases h
  | array items =>
    cases h
    exact lookup_zip f.mem items
  | dateTime =>
    cases h
    rfl
  | _ => cases h

end Value

end ContextDiagram.Toml
