import RegionGuard.Checker.Basic

/-!
# Operations that do not return on a violation

Instrumented code cannot handle a violation.  `Checker.orAbort` hands one to the
configured action, which ends the operation.

Nor can such code pass a checker along.  A `Handle` is the one checker of a
program, installed once; its operations speak plain addresses, in which 0 is a
failed allocation and `invalidAddr` an invalid pointer.
-/

namespace RegionGuard

/-- The outcome of an operation whose violations end it. -/
def Checker.orAbort {H α : Type} (outcome : Except Violation α × Checker H) :
    Except Abort α × Checker H :=
  match outcome with
  | (.ok value, c) => (.ok value, c)
  | (.error violation, c) => (.error (c.config.onViolation.abort violation), c)

/-- The checker of a program, once it is installed. -/
structure Handle where
  /-- The installed checker. -/
  checker? : Option (Checker Heap)

/-- Why a checker was not installed. -/
inductive InstallError
  /-- There is no checker for the configuration. -/
  | start (cause : StartError)
  /-- There is one already. -/
  | alreadyInstalled
  deriving DecidableEq, Repr

/-- The wording of each cause. -/
def InstallError.message : InstallError → String
  | .start cause => cause.message
  | .alreadyInstalled => "bound checker already initialized"

namespace Handle

/-- The handle at the start of a program. -/
def empty : Handle := ⟨none⟩

/-- Installs a checker.  A configuration without one is reported first. -/
def install (h : Handle) (config : Config) : Except InstallError Unit × Handle :=
  match Checker.create config, h with
  | .error cause, h => (.error (.start cause), h)
  | .ok _, ⟨some c⟩ => (.error .alreadyInstalled, ⟨some c⟩)
  | .ok c, ⟨none⟩ => (.ok (), ⟨some c⟩)

/-- Whether a checker is installed. -/
def isInstalled (h : Handle) : Bool :=
  h.checker?.isSome

/-- The message for an operation before the installation. -/
def notInstalledMessage : String :=
  "bound checker used before global::init"

/-- Runs an operation on the installed checker. -/
def run {α : Type} (h : Handle)
    (operation : Checker Heap → Except Violation α × Checker Heap) :
    Except Abort α × Handle :=
  match h with
  | ⟨none⟩ => (.error (.interrupt notInstalledMessage), ⟨none⟩)
  | ⟨some c⟩ =>
    match Checker.orAbort (operation c) with
    | (result, c) => (result, ⟨some c⟩)

/-- The plain address of an allocation that may have failed. -/
def rawAllocation (result : Except Abort (Option Addr)) : Except Abort Addr :=
  result.map (·.getD 0)

/-- Registers memory. -/
def register (h : Handle) (addr : Addr) (size : UInt32) : Except Abort Unit × Handle :=
  h.run (·.register addr size)

/-- Forgets a region. -/
def unregister (h : Handle) (addr : Addr) : Except Abort Unit × Handle :=
  h.run (·.unregister addr)

/-- Moves a plain pointer. -/
def advance (h : Handle) (addr : Addr) (offset : Int32) : Except Abort Addr × Handle :=
  h.run fun c =>
    match c.advance (.ofAddr addr) offset with
    | (ptr, c) => (.ok ptr.toAddr, c)

/-- Loads a value at an offset from a plain pointer. -/
def load (h : Handle) (addr : Addr) (offset : Int32) (access : Access) :
    Except Abort Int64 × Handle :=
  h.run (·.load (.ofAddr addr) offset access)

/-- Stores the low bytes of a value at an offset from a plain pointer. -/
def store (h : Handle) (addr : Addr) (offset : Int32) (width : Width) (value : Int64) :
    Except Abort Unit × Handle :=
  h.run (·.store (.ofAddr addr) offset ⟨width, .unsigned⟩ value)

/-- Allocates bytes. -/
def allocate (h : Handle) (size : UInt32) : Except Abort Addr × Handle :=
  match h.run (·.allocate size) with
  | (result, h) => (rawAllocation result, h)

/-- Allocates zeros. -/
def allocateZeros (h : Handle) (count size : UInt32) : Except Abort Addr × Handle :=
  match h.run (·.allocateZeros count size) with
  | (result, h) => (rawAllocation result, h)

/-- Gives an allocation back. -/
def free (h : Handle) (addr : Addr) : Except Abort Unit × Handle :=
  h.run (·.free addr)

/-- Resizes an allocation. -/
def resize (h : Handle) (addr : Addr) (size : UInt32) : Except Abort Addr × Handle :=
  match h.run (·.resize addr size) with
  | (result, h) => (rawAllocation result, h)

end Handle

end RegionGuard
