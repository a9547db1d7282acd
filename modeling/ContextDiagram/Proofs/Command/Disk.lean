import ContextDiagram.Proofs.Command.Run

namespace ContextDiagram.Command

theorem fromUTF8?_toUTF8 (s : String) : String.fromUTF8? s.toUTF8 = some s := by
  unfold String.fromUTF8?
  rw [String.toUTF8_eq_toByteArray, dif_pos s.isValidUTF8]
  rfl

/-- A path leads to a place, at which there need not be anything. -/
def Disk.LeadsTo (disk : Disk) (path : String) (place : List String) : Prop :=
  ∃ start parts, disk.split path = .ok (start, parts) ∧ disk.walk start parts = .ok place

/-- Two disks differ in one file: that which a path leads to, on either disk, holds a text on the
second one. -/
structure Disk.DiffersAt (disk disk' : Disk) (path text : String) (place : List String) :
    Prop where
  leads : disk.LeadsTo path place
  leads_after : disk'.LeadsTo path place
  no_directory : disk.entry? place ≠ some .directory
  file_after : disk'.entry? place = some (.file text.toUTF8)
  elsewhere : ∀ other ≠ place, disk'.entry? other = disk.entry? other
  current_after : disk'.current = disk.current

section

variable {disk disk' : Disk} {path text : String} {place : List String}

theorem set_self (disk : Disk) (place : List String) (entry : Entry) :
    Disk.entry? (disk.set place entry) place = some entry := if_pos rfl

theorem set_of_ne (disk : Disk) {place other : List String} (entry : Entry) (h : other ≠ place) :
    Disk.entry? (disk.set place entry) other = disk.entry? other := if_neg h

/-- A walk passes through directories only, so it does not notice what comes to stand elsewhere. -/
theorem walk_set {content : ByteArray} (hp : disk.entry? place ≠ some .directory) :
    ∀ {parts : List String} {start target : List String}, disk.walk start parts = .ok target →
      (disk.set place (.file content)).walk start parts = .ok target := by
  intro parts
  induction parts with
  | nil => exact fun h => h
  | cons part rest ih =>
    intro start target h
    rw [Disk.walk] at h ⊢
    cases he : disk.entry? start with
    | none =>
      rw [he] at h
      cases h
    | some entry =>
      rw [he] at h
      cases entry with
      | file _ => cases h
      | directory =>
        have hs : start ≠ place := by
          rintro rfl
          exact hp he
        rw [set_of_ne disk _ hs, he]
        by_cases h₁ : part = "" ∨ part = "."
        · rw [if_pos h₁] at h ⊢
          exact ih h
        rw [if_neg h₁] at h ⊢
        by_cases h₂ : part = ".."
        · rw [if_pos h₂] at h ⊢
          exact ih h
        rw [if_neg h₂] at h ⊢
        by_cases h₃ : Disk.longestName < part.utf8ByteSize
        · rw [if_pos h₃] at h
          cases h
        · rw [if_neg h₃] at h ⊢
          exact ih h

theorem Disk.LeadsTo.set {content : ByteArray} (h : disk.LeadsTo path place)
    (hp : disk.entry? place ≠ some .directory) :
    (disk.set place (.file content)).LeadsTo path place := by
  obtain ⟨start, parts, hs, hw⟩ := h
  exact ⟨start, parts, hs, walk_set hp hw⟩

theorem read_of_leadsTo (h : disk.LeadsTo path place)
    (he : disk.entry? place = some (.file text.toUTF8)) : disk.read path = .ok text := by
  obtain ⟨start, parts, hs, hw⟩ := h
  have hf : disk.find path = .ok (.file text.toUTF8) := by
    rw [Disk.find, Except.bind_eq_ok_iff]
    refine ⟨(start, parts), hs, ?_⟩
    rw [Except.bind_eq_ok_iff]
    refine ⟨place, hw, ?_⟩
    rw [he]
    rfl
  rw [Disk.read, Except.bind_eq_ok_iff]
  refine ⟨_, hf, ?_⟩
  simp only [fromUTF8?_toUTF8]
  rfl

theorem withoutTrailing_eq_self {parts : List String}
    (h : ¬(Disk.withoutTrailing parts).length < parts.length) :
    Disk.withoutTrailing parts = parts := by
  have hp : Disk.withoutTrailing parts <+: parts := by
    have hs := List.dropWhile_suffix (· = "") (l := parts.reverse)
    rw [← List.reverse_prefix, List.reverse_reverse] at hs
    exact hs
  exact hp.eq_of_length_le (Nat.not_lt.1 h)

theorem write_eq_ok (h : disk.write path text = .ok disk') :
    ∃ place, disk.LeadsTo path place ∧ disk.entry? place ≠ some .directory ∧
      disk.set place (.file text.toUTF8) = disk' := by
  rw [Disk.write, Except.bind_eq_ok_iff] at h
  obtain ⟨⟨start, parts⟩, hs, h⟩ := h
  dsimp only at h
  by_cases hl : (Disk.withoutTrailing parts).length < parts.length
  · rw [if_pos hl, Except.bind_eq_ok_iff] at h
    obtain ⟨_, -, h⟩ := h
    cases h
  rw [if_neg hl, withoutTrailing_eq_self hl, Except.bind_eq_ok_iff] at h
  obtain ⟨place, hw, h⟩ := h
  by_cases hd : disk.entry? place = some .directory
  · rw [if_pos hd] at h
    cases h
  · rw [if_neg hd] at h
    exact ⟨place, ⟨start, parts, hs, hw⟩, hd, Except.pure_eq_ok_iff.1 h⟩

theorem differsAt_of_write (h : disk.write path text = .ok disk') :
    ∃ place, disk.DiffersAt disk' path text place := by
  obtain ⟨place, hl, hp, rfl⟩ := write_eq_ok h
  exact ⟨place, hl, hl.set hp, hp, set_self .., fun _ ho => set_of_ne disk _ ho, rfl⟩

theorem read_of_write (h : disk.write path text = .ok disk') : disk'.read path = .ok text := by
  obtain ⟨place, hd⟩ := differsAt_of_write h
  exact read_of_leadsTo hd.leads_after hd.file_after

theorem writeOn_eq (disk : Disk) (path text : String) :
    writeOn disk path text =
      match disk.write path text with
      | .ok disk' => (.ok (), disk')
      | .error fault => (.error fault, disk) := by
  change (match disk.write path text with
    | .ok disk' => (set disk' >>= fun _ => pure (.ok ()) : StateM Disk (Except FileFault Unit))
    | .error fault => pure (.error fault)) disk = _
  cases disk.write path text <;> rfl

theorem writeOn_eq_ok_iff :
    writeOn disk path text = (.ok (), disk') ↔ disk.write path text = .ok disk' := by
  rw [writeOn_eq]
  cases disk.write path text with
  | ok after =>
    constructor
    · intro h
      cases h
      rfl
    · intro h
      cases h
      rfl
  | error fault => exact iff_of_false nofun nofun

end

instance : LawfulFiles Disk where
  isPresentOn_snd _ _ := rfl
  readOn_snd _ _ := rfl
  writeOn_snd := by
    intro disk path text fault h
    rw [writeOn_eq] at h ⊢
    cases hw : disk.write path text with
    | ok disk' =>
      rw [hw] at h
      cases h
    | error fault => rfl
  isPresentOn_fst := by
    intro disk path text h
    obtain ⟨entry, hfind, -⟩ := Except.bind_eq_ok_iff.1 h
    exact congrArg Except.toBool hfind

/-- A run that fails does so as its first failing stage and leaves the disk as it was; a run that
succeeds has written the diagram to the output and changed nothing else. -/
theorem runOn_all_or_nothing (measure : Text.Measure Float32) (shared : List String)
    (arguments : Arguments) (disk : Disk) :
    (∀ failure disk', runOn measure shared arguments disk = (.error failure, disk') ↔
      Fails measure shared arguments disk failure ∧ disk' = disk) ∧
    (∀ disk', runOn measure shared arguments disk = (.ok (), disk') ↔
      ∃ svg, Draws measure shared arguments disk svg ∧
        disk.write arguments.output svg = .ok disk') ∧
    ∀ svg disk', disk.write arguments.output svg = .ok disk' →
      disk'.read arguments.output = .ok svg ∧
        ∃ place, disk.DiffersAt disk' arguments.output svg place := by
  refine ⟨fun failure disk' => runOn_eq_error_iff, fun disk' => ?_,
    fun svg disk' h => ⟨read_of_write h, differsAt_of_write h⟩⟩
  rw [runOn_eq_ok_iff]
  simp only [writeOn_eq_ok_iff]

end ContextDiagram.Command
