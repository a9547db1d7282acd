import ContextDiagram.Command.Arguments
import ContextDiagram.Command.Files
import ContextDiagram.Diagram
import ContextDiagram.Settings.Reading

namespace ContextDiagram.Command

variable {m : Type → Type} [Monad m] [Files m]

def localSettings : String := "ctxmap/config.toml"

def readFile (path : String) : ExceptT Failure m String := do
  MonadExcept.ofExcept ((← Files.read path).mapError Failure.file)

def loadSettings (path : String) : ExceptT Failure m Settings := do
  if ← Files.isPresent path then
    MonadExcept.ofExcept ((Settings.ofToml (← readFile path)).mapError Failure.settings)
  else throw (.settings (.missingFile path))

def firstSettings : List String → ExceptT Failure m Settings
  | [] => return .standard
  | path :: rest => do
    if ← Files.isPresent path then loadSettings path else firstSettings rest

/-- The settings for a run: those of the file asked for, or else the first that are found. -/
def chooseSettings (asked : Option String) (shared : List String) : ExceptT Failure m Settings :=
  match asked with
  | some path => loadSettings path
  | none => firstSettings (localSettings :: shared)

def diagramOf (settings : Settings) (measure : Text.Measure Float32) (source : String) :
    Except Failure String := do
  (← ContextMap.ofSource source).svg settings measure

/-- A run for a user whose settings are in one of the `shared` files, if they are anywhere. -/
def run (measure : Text.Measure Float32) (shared : List String) (arguments : Arguments) :
    ExceptT Failure m Unit := do
  let settings ← chooseSettings arguments.settings shared
  let source ← readFile arguments.input
  let diagram ← MonadExcept.ofExcept (diagramOf settings measure source)
  MonadExcept.ofExcept ((← Files.write arguments.output diagram).mapError Failure.file)

end ContextDiagram.Command
