import ContextDiagram.Toml.Reader
import Mathlib.Data.Option.Basic

namespace ContextDiagram.Toml

structure Value.IsScalar (v : Value) : Prop where
  ne_array : ∀ items, v ≠ .array items
  ne_table : ∀ entries, v ≠ .table entries

inductive Value.HasDistinctKeys : Value → Prop
  | scalar {v : Value} : v.IsScalar → v.HasDistinctKeys
  | array {items : List Value} : (∀ v ∈ items, v.HasDistinctKeys) → (array items).HasDistinctKeys
  | table {entries : Table} : (entries.map Prod.fst).Nodup →
      (∀ entry ∈ entries, entry.2.HasDistinctKeys) → (table entries).HasDistinctKeys

theorem lookup_eq_some_iff_mem {entries : Table} (h : (entries.map Prod.fst).Nodup) {key : String}
    {v : Value} : entries.lookup key = some v ↔ (key, v) ∈ entries := by
  constructor
  · intro hv
    obtain ⟨before, after, rfl, -⟩ := List.lookup_eq_some_iff.1 hv
    exact List.mem_append_right _ List.mem_cons_self
  · intro hv
    obtain ⟨before, after, rfl⟩ := List.append_of_mem hv
    refine List.lookup_eq_some_iff.2 ⟨before, after, rfl, ?_⟩
    intro entry hentry
    rw [List.map_append, List.nodup_append] at h
    exact bne_iff_ne.2 (h.2.2 _ (List.mem_map_of_mem hentry) _ List.mem_cons_self).symm

/-- What a change under one key does: it puts a new entry behind the others, or it changes one. -/
theorem alter_cases {key : String} {f : Option Item → Option Item} {entries entries' : Entries}
    (h : alter key f entries = some entries') :
    (∃ item, f none = some item ∧ key ∉ entries.map Prod.fst ∧
      entries' = entries ++ [(key, item)]) ∨
    ∃ before old new after, f (some old) = some new ∧
      entries = before ++ (key, old) :: after ∧ entries' = before ++ (key, new) :: after := by
  induction entries generalizing entries' with
  | nil =>
    obtain ⟨item, hitem, rfl⟩ := Option.map_eq_some_iff.1 h
    exact .inl ⟨item, hitem, List.not_mem_nil, rfl⟩
  | cons entry rest ih =>
    obtain ⟨name, old⟩ := entry
    rw [alter] at h
    split at h
    · next hname =>
      obtain rfl := eq_of_beq hname
      obtain ⟨new, hnew, rfl⟩ := Option.map_eq_some_iff.1 h
      exact .inr ⟨[], old, new, rest, hnew, rfl, rfl⟩
    · next hname =>
      obtain ⟨rest', hrest, rfl⟩ := Option.map_eq_some_iff.1 h
      rcases ih hrest with ⟨item, hitem, hkey, rfl⟩ | ⟨before, old', new, after, hnew, rfl, rfl⟩
      · refine .inl ⟨item, hitem, ?_, rfl⟩
        rw [List.map_cons, List.mem_cons, not_or]
        exact ⟨fun he => hname (beq_of_eq he.symm), hkey⟩
      · exact .inr ⟨(name, old) :: before, old', new, after, hnew, rfl, rfl⟩

theorem closeEntries_eq_map (entries : Entries) :
    closeEntries entries = entries.map fun entry => (entry.1, entry.2.close) := by
  induction entries with
  | nil => rfl
  | cons entry rest ih => rw [closeEntries, ih, List.map_cons]

theorem closeTables_eq_map (tables : List Entries) :
    closeTables tables = tables.map fun entries => .table (closeEntries entries) := by
  induction tables with
  | nil => rfl
  | cons entries rest ih => rw [closeTables, ih, List.map_cons]

/-- The tables that the entries would make up if no line followed have distinct keys. -/
structure AreDistinct (entries : Entries) : Prop where
  nodup : (entries.map Prod.fst).Nodup
  close : ∀ entry ∈ entries, entry.2.close.HasDistinctKeys

theorem areDistinct_iff {entries : Entries} :
    AreDistinct entries ↔ (Value.table (closeEntries entries)).HasDistinctKeys := by
  have hkeys : (closeEntries entries).map Prod.fst = entries.map Prod.fst := by
    rw [closeEntries_eq_map, List.map_map]
    rfl
  constructor
  · intro h
    refine .table (hkeys ▸ h.nodup) ?_
    rw [closeEntries_eq_map]
    exact List.forall_mem_map.2 h.close
  · intro h
    cases h with
    | scalar h => exact absurd rfl (h.ne_table _)
    | table hnodup hclose =>
      rw [closeEntries_eq_map] at hclose
      exact ⟨hkeys ▸ hnodup, fun entry hentry => hclose _ (List.mem_map_of_mem hentry)⟩

theorem areDistinct_nil : AreDistinct [] :=
  ⟨List.nodup_nil, nofun⟩

def KeepsItem (f : Option Item → Option Item) : Prop :=
  ∀ old new, f old = some new → (∀ item ∈ old, item.close.HasDistinctKeys) →
    new.close.HasDistinctKeys

def KeepsEntries (f : Entries → Option Entries) : Prop :=
  ∀ entries entries', f entries = some entries' → AreDistinct entries → AreDistinct entries'

theorem keepsEntries_alter {f : Option Item → Option Item} (hf : KeepsItem f) (key : String) :
    KeepsEntries (alter key f) := by
  intro entries entries' h hentries
  rcases alter_cases h with ⟨item, hitem, hkey, rfl⟩ | ⟨before, old, new, after, hnew, rfl, rfl⟩
  · constructor
    · rw [List.map_append, List.nodup_append]
      refine ⟨hentries.nodup, List.pairwise_singleton _ _, ?_⟩
      intro name hname other hother he
      obtain rfl := List.mem_singleton.1 hother
      exact hkey (he ▸ hname)
    · exact List.forall_mem_append.2
        ⟨hentries.close, List.forall_mem_singleton.2 (hf _ _ hitem nofun)⟩
  · have hkeys : (before ++ (key, new) :: after).map Prod.fst =
        (before ++ (key, old) :: after).map Prod.fst := by
      rw [List.map_append, List.map_append, List.map_cons, List.map_cons]
    obtain ⟨hbefore, hafter⟩ := List.forall_mem_append.1 hentries.close
    obtain ⟨hold, hafter⟩ := List.forall_mem_cons.1 hafter
    have hitem : new.close.HasDistinctKeys := by
      apply hf _ _ hnew
      rintro _ ⟨⟩
      exact hold
    exact ⟨hkeys ▸ hentries.nodup,
      List.forall_mem_append.2 ⟨hbefore, List.forall_mem_cons.2 ⟨hitem, hafter⟩⟩⟩

theorem hasDistinctKeys_close_table {origin : Origin} {entries : Entries} :
    (Item.table origin entries).close.HasDistinctKeys ↔ AreDistinct entries := by
  rw [Item.close, areDistinct_iff]

theorem hasDistinctKeys_close_tables {earlier : List Entries} {last : Entries} :
    (Item.tables earlier last).close.HasDistinctKeys ↔
      ∀ entries ∈ earlier ++ [last], AreDistinct entries := by
  have hitems : (Item.tables earlier last).close =
      .array ((earlier ++ [last]).map fun entries => .table (closeEntries entries)) := by
    rw [Item.close, closeTables_eq_map, List.map_append, List.map_singleton]
  rw [hitems]
  constructor
  · intro h
    cases h with
    | scalar h => exact absurd rfl (h.ne_array _)
    | array h =>
      intro entries hentries
      exact areDistinct_iff.2 (h _ (List.mem_map_of_mem hentries))
  · intro h
    exact .array (List.forall_mem_map.2 fun entries hentries => areDistinct_iff.1 (h _ hentries))

theorem KeepsEntries.close_tables {f : Entries → Option Entries} (hf : KeepsEntries f)
    {earlier : List Entries} {last last' : Entries} (h : f last = some last')
    (hitem : (Item.tables earlier last).close.HasDistinctKeys) :
    (Item.tables earlier last').close.HasDistinctKeys := by
  rw [hasDistinctKeys_close_tables] at hitem ⊢
  obtain ⟨hearlier, hlast⟩ := List.forall_mem_append.1 hitem
  have hlast := hf _ _ h (List.forall_mem_singleton.1 hlast)
  exact List.forall_mem_append.2 ⟨hearlier, List.forall_mem_singleton.2 hlast⟩

theorem keepsItem_putNew {item : Item} (h : item.close.HasDistinctKeys) :
    KeepsItem (putNew item) := by
  intro old new hnew _
  cases old with
  | none => cases hnew; exact h
  | some _ => cases hnew

theorem keepsEntries_assign {v : Value} (hv : v.HasDistinctKeys) (path : List String) :
    KeepsEntries (assign v path) := by
  induction path with
  | nil => exact nofun
  | cons key more ih =>
    cases more with
    | nil =>
      have hitem : (Item.value v).close.HasDistinctKeys := by rwa [Item.close]
      exact keepsEntries_alter (keepsItem_putNew hitem) key
    | cons next more =>
      refine keepsEntries_alter ?_ key
      intro old new hnew hold
      rcases old with _ | (_ | ⟨_ | _ | _, entries⟩ | ⟨earlier, last⟩)
      case none =>
        obtain ⟨entries, hentries, rfl⟩ := Option.map_eq_some_iff.1 hnew
        exact hasDistinctKeys_close_table.2 (ih _ _ hentries areDistinct_nil)
      case some.value => cases hnew
      case some.table.header => cases hnew
      case some.table.implied | some.table.dotted =>
        obtain ⟨entries', hentries, rfl⟩ := Option.map_eq_some_iff.1 hnew
        have hitem := hasDistinctKeys_close_table.1 (hold _ rfl)
        exact hasDistinctKeys_close_table.2 (ih _ _ hentries hitem)
      case some.tables =>
        simp only at hnew
        split at hnew
        · cases hnew
        · obtain ⟨last', hlast, rfl⟩ := Option.map_eq_some_iff.1 hnew
          exact ih.close_tables hlast (hold _ rfl)

theorem keepsEntries_within {f : Entries → Option Entries} (hf : KeepsEntries f)
    (path : List String) : KeepsEntries (within f path) := by
  induction path with
  | nil => exact hf
  | cons key path ih =>
    refine keepsEntries_alter ?_ key
    intro old new hnew hold
    rcases old with _ | (_ | ⟨origin, entries⟩ | ⟨earlier, last⟩)
    case none =>
      obtain ⟨entries, hentries, rfl⟩ := Option.map_eq_some_iff.1 hnew
      exact hasDistinctKeys_close_table.2 (ih _ _ hentries areDistinct_nil)
    case some.value => cases hnew
    case some.table =>
      obtain ⟨entries', hentries, rfl⟩ := Option.map_eq_some_iff.1 hnew
      have hitem := hasDistinctKeys_close_table.1 (hold _ rfl)
      exact hasDistinctKeys_close_table.2 (ih _ _ hentries hitem)
    case some.tables =>
      obtain ⟨last', hlast, rfl⟩ := Option.map_eq_some_iff.1 hnew
      exact ih.close_tables hlast (hold _ rfl)

theorem keepsItem_openTable : KeepsItem openTable := by
  intro old new hnew hold
  rcases old with _ | (_ | ⟨_ | _ | _, entries⟩ | _)
  case none => cases hnew; exact hasDistinctKeys_close_table.2 areDistinct_nil
  case some.table.implied =>
    cases hnew
    exact hasDistinctKeys_close_table.2 (hasDistinctKeys_close_table.1 (hold _ rfl))
  all_goals cases hnew

theorem keepsItem_openElement : KeepsItem openElement := by
  intro old new hnew hold
  rcases old with _ | (_ | _ | ⟨earlier, last⟩)
  case none =>
    cases hnew
    exact hasDistinctKeys_close_tables.2 (List.forall_mem_singleton.2 areDistinct_nil)
  case some.tables =>
    cases hnew
    have hitem := hasDistinctKeys_close_tables.1 (hold _ rfl)
    exact hasDistinctKeys_close_tables.2
      (List.forall_mem_append.2 ⟨hitem, List.forall_mem_singleton.2 areDistinct_nil⟩)
  all_goals cases hnew

theorem areDistinct_insert {draft draft' : Draft} {key : List String} {v : Value}
    (hv : v.HasDistinctKeys) (h : draft.insert key v = some draft')
    (hdraft : AreDistinct draft.entries) : AreDistinct draft'.entries := by
  obtain ⟨entries, hentries, he⟩ := Option.bind_eq_some_iff.1 h
  cases he
  exact keepsEntries_within (keepsEntries_assign hv key) _ _ _ hentries hdraft

theorem areDistinct_enter {draft draft' : Draft} {f : Option Item → Option Item}
    {path : List String} (hf : KeepsItem f) (h : draft.enter f path = some draft')
    (hdraft : AreDistinct draft.entries) : AreDistinct draft'.entries := by
  obtain ⟨key, -, h⟩ := Option.bind_eq_some_iff.1 h
  obtain ⟨entries, hentries, he⟩ := Option.bind_eq_some_iff.1 h
  cases he
  exact keepsEntries_within (keepsEntries_alter hf key) _ _ _ hentries hdraft

section

theorem forall_mem_bind {α β : Type} {P : β → Prop} {x : Option α} {f : α → Option β}
    (h : ∀ a, ∀ b ∈ f a, P b) : ∀ b ∈ x >>= f, P b := by
  intro b hb
  obtain ⟨a, -, hb⟩ := Option.bind_eq_some_iff.1 hb
  exact h a b hb

variable {cs : List Char}

theorem isScalar_wholeNumber (n : Int) : (wholeNumber n).IsScalar := by
  unfold wholeNumber
  split
  · exact ⟨nofun, nofun⟩
  · exact ⟨nofun, nofun⟩

theorem isScalar_of_mem_based? {base : Nat} {isDigit : Char → Bool} :
    ∀ v ∈ based? base isDigit cs, v.IsScalar := by
  refine forall_mem_bind fun _ => forall_mem_bind fun _ => ?_
  rintro v ⟨⟩
  split
  · exact ⟨nofun, nofun⟩
  · exact isScalar_wholeNumber _

theorem isScalar_of_mem_decimal? {negative : Bool} : ∀ v ∈ decimal? negative cs, v.IsScalar := by
  refine forall_mem_bind fun _ => forall_mem_bind fun _ => forall_mem_bind fun _ => ?_
  rintro v ⟨⟩
  split
  · exact isScalar_wholeNumber _
  · exact ⟨nofun, nofun⟩

theorem isScalar_of_mem_float? {negative : Bool} : ∀ v ∈ float? negative cs, v.IsScalar := by
  have hend (tooLarge : Bool) (x : Float) :
      ∀ v ∈ (pure (if tooLarge then .illegible else .float x) : Option Value), v.IsScalar := by
    rintro v ⟨⟩
    split
    · exact ⟨nofun, nofun⟩
    · exact ⟨nofun, nofun⟩
  refine forall_mem_bind fun _ => forall_mem_bind fun _ => ?_
  dsimp only
  -- With a fraction or without, and with an exponent or without, the end is the same.
  split
  all_goals
    refine forall_mem_bind fun _ => ?_
    split
    · split
      · exact forall_mem_bind fun _ => forall_mem_bind fun _ => forall_mem_bind fun _ =>
          forall_mem_bind fun _ => hend _ _
      · exact forall_mem_bind fun _ => forall_mem_bind fun _ => forall_mem_bind fun _ => hend _ _
    · exact forall_mem_bind fun _ => forall_mem_bind fun _ => forall_mem_bind fun _ => hend _ _

theorem isScalar_of_mem_dateTime? : ∀ v ∈ dateTime? cs, v.IsScalar := by
  intro v hv
  have hdateTime : v = .dateTime := by
    simp only [dateTime?] at hv
    grind
  rw [hdateTime]
  exact ⟨nofun, nofun⟩

theorem isScalar_of_mem_number? {signed negative : Bool} :
    ∀ v ∈ number? signed negative cs, v.IsScalar := by
  fun_cases number? signed negative cs
  case case2 | case4 | case6 => exact isScalar_of_mem_based?
  case case13 | case15 => exact isScalar_of_mem_dateTime?
  case case16 => exact isScalar_of_mem_float?
  case case17 => exact isScalar_of_mem_decimal?
  all_goals exact nofun

theorem isScalar_of_mem_signedNumber? {signed negative : Bool} :
    ∀ v ∈ signedNumber? signed negative cs, v.IsScalar := by
  fun_cases signedNumber? signed negative cs
  case case1 | case2 =>
    rintro v ⟨⟩
    exact ⟨nofun, nofun⟩
  case case3 => exact isScalar_of_mem_number?
  all_goals exact nofun

theorem isScalar_of_mem_scalar? : ∀ v ∈ scalar? cs, v.IsScalar := by
  fun_cases scalar? cs
  case case1 | case2 =>
    rintro v ⟨⟩
    exact ⟨nofun, nofun⟩
  all_goals exact isScalar_of_mem_signedNumber?

end

theorem forall_mem_of_listed? {α : Type} {P : α → Prop} {close : Char}
    {element : List Char → Option (α × List Char)}
    (helement : ∀ cs a rest, element cs = some (a, rest) → P a) {cs rest : List Char}
    {found : List α} (h : listed? close element cs = some (found, rest)) : ∀ a ∈ found, P a := by
  fun_induction listed? close element cs generalizing found rest with
  | case1 => cases h
  | case2 =>
    cases h
    exact nofun
  | case3 cs c behind hvoid hclose ih =>
    obtain ⟨⟨first, behind⟩, hfirst, h⟩ := Option.bind_eq_some_iff.1 h
    have hfirst := helement _ _ _ hfirst
    dsimp only at h
    split at h
    · cases h
    · split at h
      · cases h
        exact List.forall_mem_singleton.2 hfirst
      · split at h
        · next hcomma =>
          obtain ⟨⟨others, behind⟩, hothers, h⟩ := Option.bind_eq_some_iff.1 h
          cases h
          exact List.forall_mem_cons.2 ⟨hfirst, ih _ _ hcomma hothers⟩
        · cases h

theorem value_of_assignment? {P : Value → Prop} {skip : List Char → List Char}
    {value : List Char → Option (Value × List Char)}
    (hvalue : ∀ cs v rest, value cs = some (v, rest) → P v) {cs rest : List Char}
    {given : List String × Value} (h : assignment? skip value cs = some (given, rest)) :
    P given.2 := by
  obtain ⟨⟨key, behind⟩, -, h⟩ := Option.bind_eq_some_iff.1 h
  dsimp only at h
  split at h
  · obtain ⟨⟨v, behind⟩, hv, h⟩ := Option.bind_eq_some_iff.1 h
    cases h
    exact hvalue _ _ _ hv
  · cases h

theorem areDistinct_assignAll {given : List (List String × Value)} {entries entries' : Entries}
    (hgiven : ∀ entry ∈ given, entry.2.HasDistinctKeys)
    (h : given.foldlM (fun entries (key, v) => assign v key entries) entries = some entries')
    (hentries : AreDistinct entries) : AreDistinct entries' := by
  induction given generalizing entries with
  | nil =>
    cases h
    exact hentries
  | cons entry given ih =>
    obtain ⟨hentry, hgiven⟩ := List.forall_mem_cons.1 hgiven
    obtain ⟨middle, hmiddle, h⟩ := Option.bind_eq_some_iff.1 h
    exact ih hgiven h (keepsEntries_assign hentry _ _ _ hmiddle hentries)

theorem hasDistinctKeys_of_value? {depth : Nat} {cs rest : List Char} {v : Value}
    (h : value? depth cs = some (v, rest)) : v.HasDistinctKeys := by
  induction depth using Nat.strongRecOn generalizing cs rest v with
  | ind depth ih =>
    revert h
    fun_cases value? depth cs
    case case1 depth _ =>
      intro h
      obtain ⟨⟨items, behind⟩, hitems, h⟩ := Option.bind_eq_some_iff.1 h
      cases h
      refine .array (forall_mem_of_listed? ?_ hitems)
      intro cs v rest hv
      exact ih depth depth.lt_succ_self hv
    case case2 depth _ =>
      intro h
      obtain ⟨⟨given, behind⟩, hgiven, h⟩ := Option.bind_eq_some_iff.1 h
      obtain ⟨entries, hentries, h⟩ := Option.bind_eq_some_iff.1 h
      cases h
      have hdistinct : ∀ entry ∈ given, entry.2.HasDistinctKeys := by
        refine forall_mem_of_listed? ?_ hgiven
        intro cs entry rest hentry
        exact value_of_assignment? (fun _ _ _ hv => ih depth depth.lt_succ_self hv) hentry
      exact areDistinct_iff.1 (areDistinct_assignAll hdistinct hentries areDistinct_nil)
    case case3 =>
      intro h
      cases h
      exact .scalar ⟨nofun, nofun⟩
    case case4 =>
      intro h
      obtain ⟨v', hv, he⟩ := Option.map_eq_some_iff.1 h
      cases he
      exact .scalar (isScalar_of_mem_scalar? _ hv)

theorem areDistinct_line? {draft draft' : Draft} {cs rest : List Char}
    (h : line? draft cs = some (draft', rest)) (hdraft : AreDistinct draft.entries) :
    AreDistinct draft'.entries := by
  revert h
  fun_cases line? draft cs
  case case1 =>
    intro h
    obtain ⟨⟨path, behind⟩, -, h⟩ := Option.bind_eq_some_iff.1 h
    split at h
    · obtain ⟨next, hnext, h⟩ := Option.bind_eq_some_iff.1 h
      cases h
      exact areDistinct_enter keepsItem_openElement hnext hdraft
    · cases h
  case case2 =>
    intro h
    obtain ⟨⟨path, behind⟩, -, h⟩ := Option.bind_eq_some_iff.1 h
    split at h
    · obtain ⟨next, hnext, h⟩ := Option.bind_eq_some_iff.1 h
      cases h
      exact areDistinct_enter keepsItem_openTable hnext hdraft
    · cases h
  case case3 | case4 =>
    intro h
    cases h
    exact hdraft
  case case5 =>
    intro h
    obtain ⟨⟨given, behind⟩, hgiven, h⟩ := Option.bind_eq_some_iff.1 h
    obtain ⟨next, hnext, h⟩ := Option.bind_eq_some_iff.1 h
    cases h
    have hv := value_of_assignment? (fun _ _ _ hv => hasDistinctKeys_of_value? hv) hgiven
    exact areDistinct_insert hv hnext hdraft

theorem areDistinct_lines? {draft draft' : Draft} {cs : List Char}
    (h : lines? draft cs = some draft') (hdraft : AreDistinct draft.entries) :
    AreDistinct draft'.entries := by
  fun_induction lines? draft cs with
  | case1 draft cs ih =>
    obtain ⟨⟨next, rest⟩, hline, h⟩ := Option.bind_eq_some_iff.1 h
    have hnext := areDistinct_line? hline hdraft
    dsimp only at h
    split at h
    · cases h
      exact hnext
    · obtain ⟨rest', -, h⟩ := Option.bind_eq_some_iff.1 h
      split at h
      · next hshorter => exact ih _ _ hshorter h hnext
      · cases h

theorem hasDistinctKeys_of_read? {source : String} {t : Table} (h : read? source = some t) :
    (Value.table t).HasDistinctKeys := by
  obtain ⟨draft, hdraft, rfl⟩ := Option.map_eq_some_iff.1 h
  exact areDistinct_iff.1 (areDistinct_lines? hdraft areDistinct_nil)

end ContextDiagram.Toml
