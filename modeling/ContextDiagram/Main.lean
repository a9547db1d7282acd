import ContextDiagram.Command.Run

namespace ContextDiagram.Command

def faultOf : IO.Error → FileFault
  | .noFileOrDirectory .. => .notFound
  | .inappropriateType _ 20 _ => .notADirectory
  | .inappropriateType _ 21 _ => .isADirectory
  | .invalidArgument _ 36 _ => .nameTooLong
  | error => .other (toString error)

/-- The files of the machine. A path counts as present if it can be opened. -/
instance : Files IO where
  isPresent path := do
    try
      let _ ← IO.FS.Handle.mk path .read
      return true
    catch _ =>
      return false
  read path := do
    try
      match String.fromUTF8? (← IO.FS.readBinFile path) with
      | some text => return .ok text
      | none => return .error .notText
    catch error =>
      return .error (faultOf error)
  write path text := do
    try
      IO.FS.writeFile path text
      return .ok ()
    catch error =>
      return .error (faultOf error)

def sharedSettings : IO (List String) := do
  let home ← IO.getEnv "HOME"
  let shared ← IO.getEnv "XDG_CONFIG_HOME"
  let directory := match shared.filter (·.startsWith "/") with
    | some path => some path
    | none => home.map (· ++ "/.config")
  return (directory.map (· ++ "/ctxmap/config.toml")).toList

def usage : String :=
  "Usage: ctxmap [--output FILE] [--config FILE] [--log-level LEVEL] INPUT"

def Refusal.message : Refusal → String
  | helpWanted => "Render a context map file to SVG\n\n" ++ usage
  | versionWanted => "ctxmap"
  | unknownArgument => "error: unexpected argument found\n\n" ++ usage
  | missingValue => "error: an option lacks its value\n\n" ++ usage
  | repeatedOption => "error: an option is given more than once\n\n" ++ usage
  | unwantedValue => "error: a value is given to an option that takes none\n\n" ++ usage
  | missingInput => "error: the input is missing\n\n" ++ usage

def reportText (r : Report) : String :=
  let code := (r.code.map fun code => " [" ++ code ++ "]").getD ""
  let help := (r.help.map fun help => "\n  help: " ++ help).getD ""
  r.text ++ code ++ help

def logLevels : List String :=
  ["off", "error", "warn", "info", "debug", "trace"]

/-- Runs the command; its result is the exit code. -/
def execute (words : List String) : IO UInt32 := do
  match Arguments.ofWords words with
  | .error refusal =>
    if refusal = .helpWanted ∨ refusal = .versionWanted then
      IO.println refusal.message
      return 0
    else
      IO.eprintln refusal.message
      return 2
  | .ok arguments =>
    let level := arguments.logLevel.toLower
    if !logLevels.contains level then
      IO.eprintln ("Invalid log level: " ++ arguments.logLevel ++ ". Using 'warn' instead.")
    match ← (run (m := IO) .estimate (← sharedSettings) arguments).run with
    | .ok () => return 0
    | .error failure =>
      if level != "off" then
        failure.reports.forM fun report => IO.eprintln (reportText report)
      return 1

end ContextDiagram.Command

def main (words : List String) : IO UInt32 :=
  ContextDiagram.Command.execute words
