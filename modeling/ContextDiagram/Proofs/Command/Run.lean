import ContextDiagram.Command.Run
import ContextDiagram.Proofs.Drawing
import ContextDiagram.Proofs.Outcome

namespace ContextDiagram.Command

section

variable {σ : Type} [Files (StateM σ)]

def isPresentOn (s : σ) (path : String) : Bool × σ :=
  (Files.isPresent path : StateM σ Bool).run s

def readOn (s : σ) (path : String) : Except FileFault String × σ :=
  (Files.read path : StateM σ _).run s

def writeOn (s : σ) (path text : String) : Except FileFault Unit × σ :=
  (Files.write path text : StateM σ _).run s

end

/-- Files that change only when they are written. What can be read is there, but it may be there and
not be readable, and reading and writing may fail for any reason. -/
class LawfulFiles (σ : Type) [Files (StateM σ)] : Prop where
  isPresentOn_snd : ∀ (s : σ) (path : String), (isPresentOn s path).2 = s
  readOn_snd : ∀ (s : σ) (path : String), (readOn s path).2 = s
  writeOn_snd : ∀ {s : σ} {path text : String} {fault : FileFault},
    (writeOn s path text).1 = .error fault → (writeOn s path text).2 = s
  isPresentOn_fst : ∀ {s : σ} {path text : String},
    (readOn s path).1 = .ok text → (isPresentOn s path).1 = true

section

variable {σ : Type} [Files (StateM σ)]

inductive Loads (s : σ) (path : String) : Except Failure Settings → Prop
  | missing (absent : (isPresentOn s path).1 = false) :
    Loads s path (.error (.settings (.missingFile path)))
  | unreadable {fault : FileFault} (present : (isPresentOn s path).1 = true)
    (read : (readOn s path).1 = .error fault) : Loads s path (.error (.file fault))
  | malformed {text : String} {fault : SettingsFault} (read : (readOn s path).1 = .ok text)
    (parsed : Settings.ofToml text = .error fault) : Loads s path (.error (.settings fault))
  | loaded {text : String} {settings : Settings} (read : (readOn s path).1 = .ok text)
    (parsed : Settings.ofToml text = .ok settings) : Loads s path (.ok settings)

def AllAbsent (s : σ) (paths : List String) : Prop :=
  ∀ path ∈ paths, (isPresentOn s path).1 = false

inductive LoadsFirst (s : σ) (paths : List String) : Except Failure Settings → Prop
  | found {before after : List String} {path : String} {result : Except Failure Settings}
    (split : paths = before ++ path :: after) (absent : AllAbsent s before)
    (present : (isPresentOn s path).1 = true) (loads : Loads s path result) :
    LoadsFirst s paths result
  | standard (absent : AllAbsent s paths) : LoadsFirst s paths (.ok .standard)

/-- The settings of a run: those of the file that is asked for, and of no other. -/
def Chooses (s : σ) (shared : List String) : Option String → Except Failure Settings → Prop
  | some path => Loads s path
  | none => LoadsFirst s (localSettings :: shared)

variable (measure : Text.Measure Float32) (shared : List String) (arguments : Arguments) (s : σ)

structure Starts (settings : Settings) (source : String) : Prop where
  chosen : Chooses s shared arguments.settings (.ok settings)
  read : (readOn s arguments.input).1 = .ok source

def Parses (settings : Settings) (m : ContextMap) : Prop :=
  ∃ source reading, Starts shared arguments s settings source ∧
    Language.read source = .ok reading ∧ reading.map = m

def LaysOut (settings : Settings) (layout : MapLayout Float32) : Prop :=
  ∃ m, Parses shared arguments s settings m ∧ m.layout (settings.options measure) = .ok layout

/-- All stages before the output succeed. -/
def Draws (svg : String) : Prop :=
  ∃ settings layout palette, LaysOut measure shared arguments s settings layout ∧
    layout.faults = [] ∧ settings.style.palette = .ok palette ∧
    Svg.render palette (.ofLayout layout settings.font) = svg

/-- One stage fails, and all before it succeed. -/
inductive Fails : Failure → Prop
  | settings {failure : Failure} :
    Chooses s shared arguments.settings (.error failure) → Fails failure
  | input {settings : Settings} {fault : FileFault} :
    Chooses s shared arguments.settings (.ok settings) →
    (readOn s arguments.input).1 = .error fault → Fails (.file fault)
  | source {settings : Settings} {source : String} {diagnostics : List Diagnostic} :
    Starts shared arguments s settings source →
    Language.read source = .error diagnostics → Fails (.source source diagnostics)
  | layout {settings : Settings} {m : ContextMap} {fault : Layout.DistributionFault Float32} :
    Parses shared arguments s settings m →
    m.layout (settings.options measure) = .error fault → Fails (.layout fault)
  | unrouted {settings : Settings} {layout : MapLayout Float32} :
    LaysOut measure shared arguments s settings layout →
    layout.faults ≠ [] → Fails (.unrouted layout.faults)
  | style {settings : Settings} {layout : MapLayout Float32} {fault : StyleFault} :
    LaysOut measure shared arguments s settings layout → layout.faults = [] →
    settings.style.palette = .error fault → Fails (.style fault)
  | output {svg : String} {fault : FileFault} :
    Draws measure shared arguments s svg →
    (writeOn s arguments.output svg).1 = .error fault → Fails (.file fault)

def runOn : Except Failure Unit × σ :=
  (run (m := StateM σ) measure shared arguments).run s

end

section

variable {ε σ α β : Type}

def continueWith (f : α → ExceptT ε (StateM σ) β) : Except ε α × σ → Except ε β × σ
  | (.ok a, s) => (f a).run s
  | (.error e, s) => (.error e, s)

theorem run_bind (x : ExceptT ε (StateM σ) α) (f : α → ExceptT ε (StateM σ) β) (s : σ) :
    (x >>= f).run s = continueWith f (x.run s) := by
  change (match x.run s with
    | (r, s') => (match r with
      | .ok a => (f a).run
      | .error e => pure (.error e) : StateM σ _) s') = _
  cases x.run s with
  | mk r s' => cases r <;> rfl

theorem run_ofExcept (r : Except ε α) (s : σ) :
    (MonadExcept.ofExcept r : ExceptT ε (StateM σ) α).run s = (r, s) := by
  cases r <;> rfl

end

section

variable {σ : Type} [Files (StateM σ)] {shared : List String} {s : σ} {path text : String}
  {result : Except Failure Settings}

theorem exists_loads (s : σ) (path : String) : ∃ result, Loads s path result := by
  cases hp : (isPresentOn s path).1 with
  | false => exact ⟨_, .missing hp⟩
  | true =>
    cases hr : (readOn s path).1 with
    | error fault => exact ⟨_, .unreadable hp hr⟩
    | ok text =>
      cases ht : Settings.ofToml text with
      | error fault => exact ⟨_, .malformed hr ht⟩
      | ok settings => exact ⟨_, .loaded hr ht⟩

theorem exists_loadsFirst (s : σ) (paths : List String) : ∃ result, LoadsFirst s paths result := by
  induction paths with
  | nil => exact ⟨_, .standard nofun⟩
  | cons path rest ih =>
    cases hp : (isPresentOn s path).1 with
    | true =>
      obtain ⟨result, hl⟩ := exists_loads s path
      exact ⟨result, .found (List.nil_append _).symm nofun hp hl⟩
    | false =>
      obtain ⟨result, h⟩ := ih
      cases h with
      | found split absent present loads =>
        exact ⟨result, .found (congrArg (path :: ·) split) (List.forall_mem_cons.2 ⟨hp, absent⟩)
          present loads⟩
      | standard absent => exact ⟨_, .standard (List.forall_mem_cons.2 ⟨hp, absent⟩)⟩

theorem exists_chooses (s : σ) (shared : List String) (asked : Option String) :
    ∃ result, Chooses s shared asked result := by
  cases asked with
  | some path => exact exists_loads s path
  | none => exact exists_loadsFirst s _

theorem run_write (s : σ) (path text : String) :
    (Files.write path text : ExceptT Failure (StateM σ) _).run s =
      (.ok (writeOn s path text).1, (writeOn s path text).2) := rfl

variable [LawfulFiles σ]

theorem run_isPresent :
    (Files.isPresent path : ExceptT Failure (StateM σ) Bool).run s =
      (.ok (isPresentOn s path).1, s) := by
  have hkeeps := LawfulFiles.isPresentOn_snd s path
  exact congrArg (Prod.mk _) hkeeps

theorem run_readFile :
    (readFile path : ExceptT Failure (StateM σ) String).run s =
      ((readOn s path).1.mapError Failure.file, s) := by
  have hr : (Files.read path : ExceptT Failure (StateM σ) _).run s = (.ok (readOn s path).1, s) :=
    congrArg (Prod.mk _) (LawfulFiles.readOn_snd s path)
  rw [readFile, run_bind, hr, continueWith, run_ofExcept]

theorem run_loadSettings_of_present (h : (isPresentOn s path).1 = true) :
    (loadSettings path : ExceptT Failure (StateM σ) Settings).run s =
      ((readOn s path).1.mapError Failure.file >>= fun text =>
        (Settings.ofToml text).mapError Failure.settings, s) := by
  rw [loadSettings, run_bind, run_isPresent, h]
  change (readFile path >>= fun text => MonadExcept.ofExcept ((Settings.ofToml text).mapError _) :
    ExceptT Failure (StateM σ) Settings).run s = _
  rw [run_bind, run_readFile]
  cases (readOn s path).1 with
  | error fault => rfl
  | ok text => exact run_ofExcept _ _

theorem Loads.run (h : Loads s path result) :
    (loadSettings path : ExceptT Failure (StateM σ) Settings).run s = (result, s) := by
  cases h with
  | missing absent =>
    rw [loadSettings, run_bind, run_isPresent, absent]
    rfl
  | unreadable present read =>
    rw [run_loadSettings_of_present present, read]
    rfl
  | malformed read parsed =>
    rw [run_loadSettings_of_present (LawfulFiles.isPresentOn_fst read), read]
    change ((Settings.ofToml _).mapError Failure.settings, s) = _
    rw [parsed]
    rfl
  | loaded read parsed =>
    rw [run_loadSettings_of_present (LawfulFiles.isPresentOn_fst read), read]
    change ((Settings.ofToml _).mapError Failure.settings, s) = _
    rw [parsed]
    rfl

theorem run_firstSettings_append_of_allAbsent {before : List String} (paths : List String)
    (h : AllAbsent s before) :
    (firstSettings (before ++ paths) : ExceptT Failure (StateM σ) Settings).run s =
      (firstSettings paths : ExceptT Failure (StateM σ) Settings).run s := by
  induction before with
  | nil => rfl
  | cons path rest ih =>
    obtain ⟨hpath, hrest⟩ := List.forall_mem_cons.1 h
    rw [List.cons_append, firstSettings, run_bind, run_isPresent, hpath]
    exact ih hrest

theorem LoadsFirst.run {paths : List String} (h : LoadsFirst s paths result) :
    (firstSettings paths : ExceptT Failure (StateM σ) Settings).run s = (result, s) := by
  cases h with
  | found split absent present loads =>
    rw [split, run_firstSettings_append_of_allAbsent _ absent, firstSettings, run_bind,
      run_isPresent, present]
    exact loads.run
  | standard absent =>
    rw [← paths.append_nil, run_firstSettings_append_of_allAbsent [] absent]
    rfl

theorem Chooses.run {asked : Option String} (h : Chooses s shared asked result) :
    (chooseSettings asked shared : ExceptT Failure (StateM σ) Settings).run s = (result, s) := by
  cases asked with
  | some path => exact Loads.run h
  | none => exact LoadsFirst.run h

end

section

variable {measure : Text.Measure Float32} {settings : Settings} {source : String}
  {reading : Language.Reading} {layout : MapLayout Float32}

theorem diagramOf_of_read_error {diagnostics : List Diagnostic}
    (h : Language.read source = .error diagnostics) :
    diagramOf settings measure source = .error (.source source diagnostics) := by
  rw [diagramOf, ContextMap.ofSource, h]
  rfl

theorem diagramOf_of_read_ok (h : Language.read source = .ok reading) :
    diagramOf settings measure source = reading.map.svg settings measure := by
  rw [diagramOf, ContextMap.ofSource, h]
  rfl

theorem svg_of_layout_error {m : ContextMap} {fault : Layout.DistributionFault Float32}
    (h : m.layout (settings.options measure) = .error fault) :
    m.svg settings measure = .error (.layout fault) := by
  rw [ContextMap.svg, ContextMap.drawing, ContextMap.layoutWith, h]
  rfl

theorem svg_of_unrouted {m : ContextMap} (h : m.layout (settings.options measure) = .ok layout)
    (hf : layout.faults ≠ []) : m.svg settings measure = .error (.unrouted layout.faults) := by
  have hd : m.drawing settings measure = .error (.unrouted layout.faults) :=
    ContextMap.drawing_eq_unrouted_iff.2
      ⟨layout, ContextMap.layoutWith_eq_ok_iff.2 h, rfl, hf⟩
  rw [ContextMap.svg, hd]
  rfl

theorem svg_of_layout_ok {m : ContextMap} (h : m.layout (settings.options measure) = .ok layout)
    (hf : layout.faults = []) :
    m.svg settings measure =
      ((Drawing.ofLayout layout settings.font).svg settings.style).mapError Failure.style := by
  have hd : m.drawing settings measure = .ok (.ofLayout layout settings.font) :=
    ContextMap.drawing_eq_ok_iff.2 ⟨layout, ContextMap.layoutWith_eq_ok_iff.2 h, hf, rfl⟩
  rw [ContextMap.svg, hd]
  rfl

end

section

variable {σ : Type} [Files (StateM σ)] {measure : Text.Measure Float32} {shared : List String}
  {arguments : Arguments} {s : σ} {settings : Settings} {source svg : String}

theorem diagramOf_of_draws (h : Draws measure shared arguments s svg) :
    ∃ settings source, Starts shared arguments s settings source ∧
      diagramOf settings measure source = .ok svg := by
  obtain ⟨settings, layout, palette, ⟨m, ⟨source, reading, hs, hr, rfl⟩, hl⟩, hf, hp, rfl⟩ := h
  refine ⟨settings, source, hs, ?_⟩
  rw [diagramOf_of_read_ok hr, svg_of_layout_ok hl hf, Drawing.svg, hp]
  rfl

/-- The stages leave nothing open: one of them fails, or all before the output succeed. -/
theorem exists_fails_or_draws (measure : Text.Measure Float32) (shared : List String)
    (arguments : Arguments) (s : σ) :
    (∃ failure, Fails measure shared arguments s failure) ∨
      ∃ svg, Draws measure shared arguments s svg := by
  obtain ⟨result, hc⟩ := exists_chooses s shared arguments.settings
  cases result with
  | error failure => exact .inl ⟨_, .settings hc⟩
  | ok settings =>
  cases hi : (readOn s arguments.input).1 with
  | error fault => exact .inl ⟨_, .input hc hi⟩
  | ok source =>
  have hs : Starts shared arguments s settings source := ⟨hc, hi⟩
  cases hr : Language.read source with
  | error diagnostics => exact .inl ⟨_, .source hs hr⟩
  | ok reading =>
  have hm : Parses shared arguments s settings reading.map := ⟨source, reading, hs, hr, rfl⟩
  cases hl : reading.map.layout (settings.options measure) with
  | error fault => exact .inl ⟨_, .layout hm hl⟩
  | ok layout =>
  have hl : LaysOut measure shared arguments s settings layout := ⟨reading.map, hm, hl⟩
  by_cases hf : layout.faults = []
  · cases hp : settings.style.palette with
    | error fault => exact .inl ⟨_, .style hl hf hp⟩
    | ok palette => exact .inr ⟨_, settings, layout, palette, hl, hf, hp, rfl⟩
  · exact .inl ⟨_, .unrouted hl hf⟩

theorem runOn_cases (measure : Text.Measure Float32) (shared : List String)
    (arguments : Arguments) (s : σ) :
    (∃ failure, Fails measure shared arguments s failure) ∨
      ∃ svg s', Draws measure shared arguments s svg ∧
        writeOn s arguments.output svg = (.ok (), s') := by
  rcases exists_fails_or_draws measure shared arguments s with h | ⟨svg, hd⟩
  · exact .inl h
  · cases hw : (writeOn s arguments.output svg).1 with
    | ok u => exact .inr ⟨svg, _, hd, Prod.ext hw rfl⟩
    | error fault => exact .inl ⟨_, .output hd hw⟩

variable [LawfulFiles σ]

theorem Starts.runOn (h : Starts shared arguments s settings source) :
    runOn measure shared arguments s =
      match diagramOf settings measure source with
      | .error failure => (.error failure, s)
      | .ok svg =>
        ((writeOn s arguments.output svg).1.mapError Failure.file,
          (writeOn s arguments.output svg).2) := by
  rw [Command.runOn, Command.run, run_bind, h.chosen.run, continueWith, run_bind, run_readFile,
    h.read]
  change (_ >>= _ : ExceptT Failure (StateM σ) Unit).run s = _
  rw [run_bind, run_ofExcept]
  cases diagramOf settings measure source with
  | error failure => rfl
  | ok svg =>
    change (_ >>= _ : ExceptT Failure (StateM σ) Unit).run s = _
    rw [run_bind, run_write]
    exact run_ofExcept _ _

theorem Draws.runOn (h : Draws measure shared arguments s svg) :
    runOn measure shared arguments s =
      ((writeOn s arguments.output svg).1.mapError Failure.file,
        (writeOn s arguments.output svg).2) := by
  obtain ⟨settings, source, hs, hd⟩ := diagramOf_of_draws h
  rw [hs.runOn, hd]

theorem Fails.runOn {failure : Failure} (h : Fails measure shared arguments s failure) :
    runOn measure shared arguments s = (.error failure, s) := by
  cases h with
  | settings hc =>
    rw [Command.runOn, Command.run, run_bind, hc.run]
    rfl
  | input hc hr =>
    rw [Command.runOn, Command.run, run_bind, hc.run, continueWith, run_bind, run_readFile, hr]
    rfl
  | source hs hr => rw [hs.runOn, diagramOf_of_read_error hr]
  | layout hp hl =>
    obtain ⟨source, reading, hs, hr, rfl⟩ := hp
    rw [hs.runOn, diagramOf_of_read_ok hr, svg_of_layout_error hl]
  | unrouted hl hf =>
    obtain ⟨m, ⟨source, reading, hs, hr, rfl⟩, hl⟩ := hl
    rw [hs.runOn, diagramOf_of_read_ok hr, svg_of_unrouted hl hf]
  | style hl hf hp =>
    obtain ⟨m, ⟨source, reading, hs, hr, rfl⟩, hl⟩ := hl
    rw [hs.runOn, diagramOf_of_read_ok hr, svg_of_layout_ok hl hf, Drawing.svg, hp]
    rfl
  | output hd hw =>
    rw [hd.runOn, LawfulFiles.writeOn_snd hw, hw]
    rfl

theorem runOn_of_write {s' : σ} (hd : Draws measure shared arguments s svg)
    (hw : writeOn s arguments.output svg = (.ok (), s')) :
    runOn measure shared arguments s = (.ok (), s') := by
  rw [hd.runOn, hw]
  rfl

/-- A run that fails does so as its first failing stage and leaves all files as they were. -/
theorem runOn_eq_error_iff {failure : Failure} {s' : σ} :
    runOn measure shared arguments s = (.error failure, s') ↔
      Fails measure shared arguments s failure ∧ s' = s := by
  constructor
  · intro h
    rcases runOn_cases measure shared arguments s with ⟨_, hf⟩ | ⟨_, _, hd, hw⟩
    · rw [hf.runOn] at h
      cases h
      exact ⟨hf, rfl⟩
    · rw [runOn_of_write hd hw] at h
      cases h
  · rintro ⟨hf, rfl⟩
    exact hf.runOn

theorem runOn_eq_ok_iff {s' : σ} :
    runOn measure shared arguments s = (.ok (), s') ↔
      ∃ svg, Draws measure shared arguments s svg ∧
        writeOn s arguments.output svg = (.ok (), s') := by
  constructor
  · intro h
    rcases runOn_cases measure shared arguments s with ⟨_, hf⟩ | ⟨svg, _, hd, hw⟩
    · rw [hf.runOn] at h
      cases h
    · rw [runOn_of_write hd hw] at h
      cases h
      exact ⟨svg, hd, hw⟩
  · rintro ⟨svg, hd, hw⟩
    exact runOn_of_write hd hw

end

end ContextDiagram.Command
