import ContextDiagram.Diagnostic
import ContextDiagram.Layout.Message
import ContextDiagram.Style

namespace ContextDiagram

open Layout

inductive FileFault
  | notFound
  | notADirectory
  | isADirectory
  | nameTooLong
  | nulInName
  | notText
  | other (message : String)
deriving DecidableEq, Repr

def FileFault.message : FileFault → String
  | notFound => "No such file or directory (os error 2)"
  | notADirectory => "Not a directory (os error 20)"
  | isADirectory => "Is a directory (os error 21)"
  | nameTooLong => "File name too long (os error 36)"
  | nulInName => "file name contained an unexpected NUL byte"
  | notText => "stream did not contain valid UTF-8"
  | other message => message

inductive SettingsFault
  | malformed (reason : String)
  | missingFile (path : String)
deriving DecidableEq, Repr

def SettingsFault.message : SettingsFault → String
  | malformed reason => "Failed to parse TOML configuration: " ++ reason
  | missingFile path => "Missing configuration file: " ++ path

def StyleFault.renderMessage (f : StyleFault) : String :=
  "Render error: " ++ f.message

inductive Failure
  | file (fault : FileFault)
  | source (source : String) (diagnostics : List Diagnostic)
  | layout (fault : DistributionFault Float32)
  | unrouted (faults : List RoutingFault)
  | settings (fault : SettingsFault)
  | style (fault : StyleFault)
deriving Repr

/-- A failure as it is shown: a text with what may accompany it. Only messages about a source text
have a severity and labels, and are shown with the source. -/
structure Report where
  text : String
  code : Option String
  severity : Option Severity := none
  help : Option String := none
  labels : List Label := []
  showsSource : Bool := false
deriving Repr

def Diagnostic.report (d : Diagnostic) : Report where
  text := d.message
  code := d.code.map DiagnosticCode.text
  severity := some d.severity
  help := d.help
  labels := d.labels
  showsSource := true

namespace Failure

def message : Failure → String
  | file fault => "I/O error: " ++ fault.message
  | source _ diagnostics => Diagnostic.summary diagnostics
  | layout fault => "Layout error: " ++ fault.message
  | unrouted faults => toString faults.length ++ " relationship(s) could not be routed"
  | settings fault => "Configuration error: " ++ fault.message
  | style fault => "Export error: " ++ fault.renderMessage

/-- What to show of the failure: the messages about a source each on their own, anything else as
one report. -/
def reports (f : Failure) : List Report :=
  match f with
  | file _ => [{ text := f.message, code := some "ctxmap::io" }]
  | source _ diagnostics => diagnostics.map Diagnostic.report
  | layout _ => [{ text := f.message, code := some "ctxmap::layout" }]
  | unrouted faults =>
    [{ text := f.message
       code := some "ctxmap::unresolved"
       help := some ("\n".intercalate (faults.map RoutingFault.message)) }]
  | settings _ => [{ text := f.message, code := some "ctxmap::config" }]
  | style _ => [{ text := f.message, code := some "ctxmap::export" }]

/-- Whether another failure is behind this one, which its text repeats. -/
def hasCause : Failure → Bool
  | file _ | layout _ => true
  | _ => false

end Failure

end ContextDiagram
