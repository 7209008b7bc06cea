import RegionGuard.Command.Arguments
import RegionGuard.Log.Filter
import RegionGuard.Text.Escape
import RegionGuard.Trace.Parser
import RegionGuard.Trace.Replay
import RegionGuard.Table.Listing

/-!
# Running the command

The command reads the filter for its log, then its arguments, then the other
variables, then the file of the trace; only then it parses the trace, sets up the
checker, replays the trace and prints the table.  The first step that fails decides
the exit status and the diagnostic: 101 for the filter, 1 for a violation, and 2 for
anything else that keeps the trace from being run.

The file system is a function from paths to contents, so the whole run is a
function of its inputs.
-/

namespace RegionGuard.Command

/-- Why a file has no text. -/
inductive ReadError
  /-- There is nothing at the path. -/
  | notFound
  /-- A folder is at the path. -/
  | isFolder
  /-- The path leads through a file as if it were a folder. -/
  | notFolder
  /-- The path or the name of a file in it has too many bytes. -/
  | nameTooLong
  /-- The content is not UTF-8. -/
  | notText
  /-- The system reports something else. -/
  | other (text : String)
  deriving DecidableEq, Repr

/-- The wording of each cause. -/
def ReadError.message : ReadError → String
  | .notFound => "No such file or directory (os error 2)"
  | .isFolder => "Is a directory (os error 21)"
  | .notFolder => "Not a directory (os error 20)"
  | .nameTooLong => "File name too long (os error 36)"
  | .notText => "stream did not contain valid UTF-8"
  | .other text => text

/-- Why a trace was not replayed to its end. -/
inductive ReplayError
  /-- The file of the trace cannot be read. -/
  | unreadable (path : String) (cause : ReadError)
  /-- The trace is malformed. -/
  | malformed (cause : Trace.ParseError)
  /-- There is no checker for the configuration. -/
  | start (cause : StartError)
  /-- A statement failed. -/
  | failed (cause : Trace.LineFailure)
  deriving DecidableEq, Repr

/-- The wording of each cause. -/
def ReplayError.message : ReplayError → String
  | .unreadable path cause => s!"cannot read trace `{path}`: {cause.message}"
  | .malformed cause => cause.message
  | .start cause => cause.message
  | .failed cause => cause.message

/-- The violation behind an error, if it is one. -/
def ReplayError.violation? : ReplayError → Option Violation
  | .start (.violation violation) => some violation
  | .failed ⟨_, .violation violation⟩ => some violation
  | _ => none

/-- What a run of the command leaves behind. -/
structure Outcome where
  /-- What is printed. -/
  stdout : String
  /-- What is reported as an error. -/
  diagnostic : Option String
  /-- What is reported about the arguments. -/
  usage : Option String
  /-- The exit status. -/
  status : Nat
  deriving DecidableEq, Repr

/-- What the command prints for its version. -/
def versionText : String := "boundcheck 0.0.1\n"

/-- The variable for how much is logged. -/
abbrev logVariable : String := "BCHECK_LOG"

/-- The name of the module that reports failures. -/
def failureTarget : String := "boundcheck"

/-- The only field of a reported failure. -/
def failureField : String := "message"

/-- The filter in the variable, if it can be read. -/
def logFilter? (value? : String → Option String) : Option Log.Filter :=
  match value? logVariable with
  | none => some ⟨[]⟩
  | some filter => Log.Filter.ofText? filter.toList

/-- The text of a file. -/
def readText (content : Except ReadError ByteArray) : Except ReadError String :=
  match content with
  | .error e => .error e
  | .ok bytes =>
    match String.fromUTF8? bytes with
    | some text => .ok text
    | none => .error .notText

/-- Replays the trace at a path and returns what is printed, with the error that
ended the replay, if one did. -/
def replay (path : String) (arguments : Arguments) (config : Config)
    (content : String → Except ReadError ByteArray) : String × Option ReplayError :=
  match readText (content path) with
  | .error cause => ("", some (.unreadable path cause))
  | .ok source =>
    match Trace.parse source with
    | .error cause => ("", some (.malformed cause))
    | .ok lines =>
      match Checker.create config with
      | .error cause => ("", some (.start cause))
      | .ok checker =>
        match (Trace.Replay.start checker).run "" lines with
        | (output, some cause, _) => (output, some (.failed cause))
        | (output, none, r) =>
          (if arguments.dump then output ++ r.checker.table.listing else output, none)

/-- What a command leaves behind that stops before it looks at its arguments. -/
def Outcome.aborted : Outcome := ⟨"", none, none, 101⟩

/-- The report of a failure, if the filter lets it through.  It may quote the trace,
a path or a variable, so its controls are escaped. -/
def logged (filter : Log.Filter) (stdout text : String) : Outcome :=
  let report := String.ofList (Text.escapeControls text.toList)
  let isLogged := filter.logsError failureTarget.toList [failureField.toList]
  ⟨stdout, if isLogged then some report else none, none, 2⟩

/-- Runs the command with a filter for its failures. -/
def runLogged (filter : Log.Filter) (arguments : List String)
    (value? : String → Option String) (content : String → Except ReadError ByteArray) :
    Outcome :=
  match Arguments.read arguments with
  | .error e => ⟨"", none, some e.message, 2⟩
  | .ok .version => ⟨versionText, none, none, 0⟩
  | .ok (.replay path arguments) =>
    match arguments.config value? with
    | .error e => logged filter "" s!"Invalid configuration: {e.message}"
    | .ok config =>
      match replay path arguments config content with
      | (stdout, none) => ⟨stdout, none, none, 0⟩
      | (stdout, some e) =>
        match e.violation? with
        | some violation => ⟨stdout, some violation.diagnostic, none, 1⟩
        | none => logged filter stdout s!"Replay failed: {e.message}"

/-- Runs the command with its arguments, the variables of the environment and
the contents of the files.  A filter that cannot be read stops it at once. -/
def run (arguments : List String) (value? : String → Option String)
    (content : String → Except ReadError ByteArray) : Outcome :=
  match logFilter? value? with
  | none => .aborted
  | some filter => runLogged filter arguments value? content

end RegionGuard.Command
