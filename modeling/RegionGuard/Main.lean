import RegionGuard.Command.Run

/-!
# The command

Reads the environment and the file, and leaves everything else to
`RegionGuard.Command.run`.
-/

namespace RegionGuard.Command

/-- The variables that the command looks at, with the values they have. -/
def readVariables : IO (List (String × String)) := do
  let names := [strictVariable, heapBaseVariable, heapSizeVariable, reserveVariable, logVariable]
  names.filterMapM fun name => do
    return (← IO.getEnv name).map fun value => (name, value)

/-- The system's codes for a path that leads through a file; opening a file
reports the negated one. -/
def notFolderCodes : List UInt32 := [20, -20]

/-- The system's codes for a path or a name that is too long. -/
def nameTooLongCodes : List UInt32 := [36, -36]

/-- The reason behind an error of the system. -/
def readError : IO.Error → ReadError
  | .noFileOrDirectory .. => .notFound
  | .inappropriateType _ code _ => if code ∈ notFolderCodes then .notFolder else .isFolder
  | .invalidArgument _ code details =>
    if code ∈ nameTooLongCodes then .nameTooLong else .other details
  | e => .other e.toString

/-- The content of a file, or the reason why there is none. -/
def readContent (path : String) : IO (Except ReadError ByteArray) := do
  try
    return .ok (← IO.FS.readBinFile path)
  catch e =>
    return .error (readError e)

end RegionGuard.Command

open RegionGuard.Command in
/-- Runs the command with the arguments of the process. -/
def main (arguments : List String) : IO UInt32 := do
  let environment ← readVariables
  let content ←
    match Arguments.read arguments with
    | .ok (.replay path _) => readContent path
    | _ => pure (.error .notFound)
  let outcome := run arguments (fun name => environment.lookup name) fun _ => content
  IO.print outcome.stdout
  if let some usage := outcome.usage then IO.eprintln s!"error: {usage}"
  if let some diagnostic := outcome.diagnostic then IO.eprintln diagnostic
  return UInt32.ofNat outcome.status
