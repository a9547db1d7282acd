namespace ContextDiagram.Command

structure Arguments where
  input : String
  output : String := "out.svg"
  settings : Option String := none
  logLevel : String := "info"
deriving DecidableEq, Repr

inductive Refusal
  | helpWanted
  | versionWanted
  | unknownArgument
  | missingValue
  | repeatedOption
  | unwantedValue
  | missingInput
deriving DecidableEq, Repr

inductive ValueOption
  | output
  | settings
  | logLevel
deriving DecidableEq, Repr

inductive Switch
  | value (option : ValueOption)
  | help
  | version
deriving DecidableEq, Repr

def Switch.ofLong? : String → Option Switch
  | "output" => some (.value .output)
  | "config" => some (.value .settings)
  | "log-level" => some (.value .logLevel)
  | "help" => some .help
  | "version" => some .version
  | _ => none

def Switch.ofShort? : Char → Option Switch
  | 'o' => some (.value .output)
  | 'c' => some (.value .settings)
  | 'h' => some .help
  | 'V' => some .version
  | _ => none

/-- What has been read so far. An option that is not written together with its value is pending: it
counts only when the next switch, the input or the end of the line comes, and so do its faults. -/
structure Progress where
  input : Option String := none
  given : List (ValueOption × String) := []
  pending : Option (ValueOption × Option String) := none
deriving DecidableEq, Repr

namespace Progress

def give (p : Progress) (option : ValueOption) (value : String) : Except Refusal Progress :=
  if (p.given.lookup option).isSome then .error .repeatedOption
  else .ok { p with given := (option, value) :: p.given }

def settle (p : Progress) : Except Refusal Progress :=
  match p.pending with
  | none => .ok p
  | some (_, none) => .error .missingValue
  | some (option, some value) => { p with pending := none }.give option value

def switch (p : Progress) (s : Switch) (attached : Option String) : Except Refusal Progress := do
  let p ← p.settle
  match s, attached with
  | .value option, some value => p.give option value
  | .value option, none => return { p with pending := some (option, none) }
  | .help, _ => throw .helpWanted
  | .version, _ => throw .versionWanted

def positional (p : Progress) (word : String) : Except Refusal Progress := do
  if p.input.isSome then throw .unknownArgument
  return { ← p.settle with input := some word }

def plain (p : Progress) (word : String) : Except Refusal Progress :=
  match p.pending with
  | some (option, none) => .ok { p with pending := some (option, some word) }
  | _ => p.positional word

/-- The word behind two dashes. Help and version take no value. -/
def long (p : Progress) (word : List Char) : Except Refusal Progress :=
  let attached := match word.dropWhile (· != '=') with
    | _ :: value => some (String.ofList value)
    | [] => none
  match Switch.ofLong? (String.ofList (word.takeWhile (· != '='))), attached with
  | none, _ => .error .unknownArgument
  | some .help, some _ | some .version, some _ => .error .unwantedValue
  | some s, attached => p.switch s attached

def short (p : Progress) (letter : Char) (rest : List Char) : Except Refusal Progress :=
  let attached := match rest with
    | [] => none
    | '=' :: value => some (String.ofList value)
    | value => some (String.ofList value)
  match Switch.ofShort? letter with
  | none => .error .unknownArgument
  | some s => p.switch s attached

def word (p : Progress) (word : String) : Except Refusal Progress :=
  match word.toList with
  | '-' :: '-' :: rest => p.long rest
  | '-' :: letter :: rest => p.short letter rest
  | _ => p.plain word

/-- The words of a command line; two dashes alone make all that follows no options. -/
def words (p : Progress) : List String → Except Refusal Progress
  | [] => .ok p
  | "--" :: rest => rest.foldlM positional p
  | word :: rest => do (← p.word word).words rest

def finish (p : Progress) : Except Refusal Arguments := do
  let p ← p.settle
  match p.input with
  | none => throw .missingInput
  | some input =>
    let standard : Arguments := { input := input }
    return { standard with
      output := (p.given.lookup .output).getD standard.output
      settings := p.given.lookup .settings
      logLevel := (p.given.lookup .logLevel).getD standard.logLevel }

end Progress

def Arguments.ofWords (words : List String) : Except Refusal Arguments := do
  (← Progress.words {} words).finish

end ContextDiagram.Command
