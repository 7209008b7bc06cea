import RegionGuard.Address.Zone
import RegionGuard.Config.Variables

/-!
# Command-line arguments

The command takes the path of one trace, some flags, and some options with a
value, which stands behind an equals sign or is the next argument.  Arguments
are taken from left to right and the first fault ends the reading, as does a
request for the version.  A value cannot start with a hyphen, unless it is a
lone hyphen; behind a lone double hyphen nothing is an option.
-/

namespace RegionGuard.Command

/-- The flags of the command. -/
inductive Flag
  /-- Treat untracked memory as forbidden. -/
  | strict
  /-- Print the table at the end. -/
  | dump
  deriving DecidableEq, Repr

/-- The options that have a value. -/
inductive Setting
  /-- A zone to reserve; it may be given more than once. -/
  | reserve
  /-- The first address of the heap. -/
  | heapBase
  /-- The size of the heap. -/
  | heapSize
  deriving DecidableEq, Repr

/-- Everything that an argument with two hyphens can name. -/
inductive LongOption
  | flag (flag : Flag)
  | setting (setting : Setting)
  | version
  deriving DecidableEq, Repr

/-- The option with a given name. -/
def LongOption.ofName? (name : String) : Option LongOption :=
  match name with
  | "strict" => some (.flag .strict)
  | "dump" => some (.flag .dump)
  | "reserve" => some (.setting .reserve)
  | "heap-base" => some (.setting .heapBase)
  | "heap-size" => some (.setting .heapSize)
  | "version" => some .version
  | _ => none

/-- What the arguments say. -/
structure Arguments where
  /-- The path of the trace. -/
  trace : Option String
  /-- Whether untracked memory is forbidden. -/
  strict : Bool
  /-- Whether the table is printed at the end. -/
  dump : Bool
  /-- The zones to reserve, in order. -/
  reserved : List Zone
  /-- The first address of the heap, if it is given. -/
  heapBase : Option Addr
  /-- The size of the heap, if it is given. -/
  heapSize : Option UInt32
  deriving DecidableEq, Repr

/-- The arguments when none is given. -/
def Arguments.blank : Arguments := ⟨none, false, false, [], none, none⟩

/-- What the command is asked to do. -/
inductive Request
  /-- Print the version. -/
  | version
  /-- Replay the trace at a path. -/
  | replay (trace : String) (arguments : Arguments)
  deriving DecidableEq, Repr

/-- Why the arguments are no request. -/
inductive UsageError
  /-- There is no such option. -/
  | unknownOption (argument : String)
  /-- A flag or option is given twice. -/
  | repeated (argument : String)
  /-- An option has no value. -/
  | missingValue (argument : String)
  /-- A flag has a value. -/
  | unexpectedValue (argument : String)
  /-- The value of an option is malformed. -/
  | badValue (value : String)
  /-- There is a second path. -/
  | extraArgument (argument : String)
  /-- The path of the trace is empty. -/
  | emptyPath
  /-- There is no path. -/
  | missingPath
  deriving DecidableEq, Repr

/-- The wording of each cause. -/
def UsageError.message : UsageError → String
  | .unknownOption argument => s!"unexpected argument `{argument}`"
  | .repeated argument => s!"`{argument}` cannot be used twice"
  | .missingValue argument => s!"`{argument}` needs a value"
  | .unexpectedValue argument => s!"`{argument}` takes no value"
  | .badValue value => s!"invalid value `{value}`"
  | .extraArgument argument => s!"unexpected argument `{argument}`"
  | .emptyPath => "the path of the trace is empty"
  | .missingPath => "the path of the trace is missing"

namespace Arguments

/-- Takes a path. -/
def addPath (a : Arguments) (path : String) : Except UsageError Arguments :=
  if a.trace.isSome then .error (.extraArgument path)
  else if path.isEmpty then .error .emptyPath
  else .ok { a with trace := some path }

/-- Takes paths. -/
def addPaths (a : Arguments) : List String → Except UsageError Arguments
  | [] => .ok a
  | path :: paths =>
    match a.addPath path with
    | .error e => .error e
    | .ok a => addPaths a paths

/-- Takes a flag. -/
def addFlag (a : Arguments) (argument : String) : Flag → Except UsageError Arguments
  | .strict => if a.strict then .error (.repeated argument) else .ok { a with strict := true }
  | .dump => if a.dump then .error (.repeated argument) else .ok { a with dump := true }

/-- Takes the value of an option. -/
def addSetting (a : Arguments) (argument value : String) :
    Setting → Except UsageError Arguments
  | .reserve =>
    match readZone value.toList with
    | .ok zone => .ok { a with reserved := a.reserved ++ [zone] }
    | .error _ => .error (.badValue value)
  | .heapBase =>
    match readWord value.toList with
    | .ok start =>
      if a.heapBase.isSome then .error (.repeated argument)
      else .ok { a with heapBase := some start }
    | .error _ => .error (.badValue value)
  | .heapSize =>
    match readWord value.toList with
    | .ok size =>
      if a.heapSize.isSome then .error (.repeated argument)
      else .ok { a with heapSize := some size }
    | .error _ => .error (.badValue value)

/-- The request that complete arguments make. -/
def finish (a : Arguments) : Except UsageError Request :=
  match a.trace with
  | some path => .ok (.replay path a)
  | none => .error .missingPath

/-- Whether an argument can be the value of the option before it. -/
def isValue (argument : String) : Bool :=
  match argument.toList with
  | ['-'] => true
  | '-' :: _ => false
  | _ => true

/-- The name of an option and the value behind its equals sign, if it has one. -/
def splitValue (text : List Char) : String × Option String :=
  match Text.splitFirst? '=' text with
  | some (name, value) => (String.ofList name, some (String.ofList value))
  | none => (String.ofList text, none)

/-- Reads arguments behind those already read. -/
def readFrom (a : Arguments) : List String → Except UsageError Request
  | [] => a.finish
  | argument :: rest =>
    match argument.toList with
    | ['-', '-'] =>
      match a.addPaths rest with
      | .error e => .error e
      | .ok a => a.finish
    | '-' :: '-' :: text =>
      match splitValue text with
      | (name, value?) =>
        match LongOption.ofName? name, value? with
        | none, _ => .error (.unknownOption argument)
        | some .version, none => .ok .version
        | some .version, some _ => .error (.unexpectedValue argument)
        | some (.flag _), some _ => .error (.unexpectedValue argument)
        | some (.flag flag), none =>
          match a.addFlag argument flag with
          | .error e => .error e
          | .ok a => readFrom a rest
        | some (.setting setting), some value =>
          match a.addSetting argument value setting with
          | .error e => .error e
          | .ok a => readFrom a rest
        | some (.setting setting), none =>
          match rest with
          | [] => .error (.missingValue argument)
          | value :: rest =>
            if isValue value then
              match a.addSetting argument value setting with
              | .error e => .error e
              | .ok a => readFrom a rest
            else .error (.missingValue argument)
    | '-' :: 'V' :: _ => .ok .version
    | '-' :: _ :: _ => .error (.unknownOption argument)
    | _ =>
      match a.addPath argument with
      | .error e => .error e
      | .ok a => readFrom a rest

/-- Reads all arguments of the command. -/
def read (arguments : List String) : Except UsageError Request :=
  blank.readFrom arguments

/-- The configuration of the variables with the arguments applied to it.  The
arguments win, and their zones come behind those of the variables. -/
def config (a : Arguments) (value? : String → Option String) : Except VariableError Config :=
  (Config.ofVariables value?).map fun config =>
    { config with
      untracked := if a.strict then .forbid else config.untracked
      heap := ⟨a.heapBase.getD config.heap.start, a.heapSize.getD config.heap.size⟩
      reserved := config.reserved ++ a.reserved }

end Arguments

end RegionGuard.Command
