import Std.Data.TreeMap
import RegionGuard.Checker.Basic
import RegionGuard.Trace.Statement

/-!
# Replaying a trace

A replay runs statements on one checker and keeps the named pointers between
them.  The first statement that fails ends it.
-/

namespace RegionGuard.Trace

/-- Why a statement failed. -/
inductive Failure
  /-- An operation of the checker was refused. -/
  | violation (cause : Violation)
  /-- The name is not bound. -/
  | unknownPointer (name : String)
  /-- The pointer is in another state than expected. -/
  | wrongState (name : String) (expected actual : PointerState)
  /-- The memory holds another value than expected. -/
  | wrongValue (name : String) (offset : Int32) (expected actual : Int64)
  deriving DecidableEq, Repr

/-- The wording of each cause. -/
def Failure.message : Failure → String
  | .violation cause => cause.message
  | .unknownPointer name => s!"unknown pointer `{name}`"
  | .wrongState name expected actual =>
    s!"expected `{name}` to be {expected.word}, but it is {actual.word}"
  | .wrongValue name offset expected actual =>
    s!"expected `{name}[{offset.toInt}]` to hold {expected.toInt}, found {actual.toInt}"

/-- A failure and the number of its line. -/
structure LineFailure where
  /-- The line's number. -/
  line : Nat
  /-- What went wrong. -/
  cause : Failure
  deriving DecidableEq, Repr

/-- The wording of the failure. -/
def LineFailure.message (e : LineFailure) : String :=
  s!"line {e.line}: {e.cause.message}"

/-- The named pointers, in the order of the names. -/
abbrev Bindings : Type := Std.TreeMap String Pointer

/-- A checker and the pointers that have names. -/
structure Replay (H : Type) where
  /-- The checker. -/
  checker : Checker H
  /-- The named pointers. -/
  names : Bindings

namespace Replay

/-- The replay at the start of a trace. -/
def start {H : Type} (checker : Checker H) : Replay H :=
  ⟨checker, ∅⟩

variable {H : Type}

/-- Binds the result of an operation on the checker to a name. -/
def bindAllocation (names : Bindings) (name : String)
    (outcome : Except Violation (Option Addr) × Checker H) :
    Except Failure String × Replay H :=
  match outcome with
  | (.error violation, c) => (.error (.violation violation), ⟨c, names⟩)
  | (.ok addr, c) => (.ok "", ⟨c, names.insert name (.valid (addr.getD 0))⟩)

/-- Takes over the result of an operation on the checker that has no value. -/
def finish (names : Bindings) (outcome : Except Violation Unit × Checker H) :
    Except Failure String × Replay H :=
  match outcome with
  | (.error violation, c) => (.error (.violation violation), ⟨c, names⟩)
  | (.ok (), c) => (.ok "", ⟨c, names⟩)

/-- Continues with the pointer of a name. -/
def withPointer (r : Replay H) (name : String)
    (next : Pointer → Replay H → Except Failure String × Replay H) :
    Except Failure String × Replay H :=
  match r.names[name]? with
  | none => (.error (.unknownPointer name), r)
  | some ptr => next ptr r

variable [Allocator H]

/-- Runs a statement and returns the text that it writes. -/
def step (r : Replay H) : Statement → Except Failure String × Replay H
  | .alloc name size =>
    match r with
    | ⟨c, names⟩ => bindAllocation names name (c.allocate size)
  | .calloc name count size =>
    match r with
    | ⟨c, names⟩ => bindAllocation names name (c.allocateZeros count size)
  | .realloc name size =>
    r.withPointer name fun ptr ⟨c, names⟩ =>
      bindAllocation names name (c.resize ptr.toAddr size)
  | .free name =>
    r.withPointer name fun ptr ⟨c, names⟩ => finish names (c.free ptr.toAddr)
  | .assign name addr =>
    match r with
    | ⟨c, names⟩ => (.ok "", ⟨c, names.insert name (.ofAddr addr)⟩)
  | .region addr size =>
    match r with
    | ⟨c, names⟩ => finish names (c.register addr size)
  | .unregister addr =>
    match r with
    | ⟨c, names⟩ => finish names (c.unregister addr)
  | .advance name base offset =>
    r.withPointer base fun ptr ⟨c, names⟩ =>
      match c.advance ptr offset with
      | (moved, c) => (.ok "", ⟨c, names.insert name moved⟩)
  | .load name offset access =>
    r.withPointer name fun ptr ⟨c, names⟩ =>
      match c.load ptr offset access with
      | (.error violation, c) => (.error (.violation violation), ⟨c, names⟩)
      | (.ok value, c) =>
        (.ok s!"{name}[{offset.toInt}] = {value.toInt}\n", ⟨c, names⟩)
  | .store name offset access value =>
    r.withPointer name fun ptr ⟨c, names⟩ => finish names (c.store ptr offset access value)
  | .expect name state =>
    r.withPointer name fun ptr r =>
      if PointerState.of ptr = state then (.ok "", r)
      else (.error (.wrongState name state (.of ptr)), r)
  | .expectLoad name offset access value =>
    r.withPointer name fun ptr ⟨c, names⟩ =>
      match c.load ptr offset access with
      | (.error violation, c) => (.error (.violation violation), ⟨c, names⟩)
      | (.ok actual, c) =>
        if actual = value then (.ok "", ⟨c, names⟩)
        else (.error (.wrongValue name offset value actual), ⟨c, names⟩)

/-- Runs lines in order until one fails.  The text written before the failure is
returned in any case. -/
def run (r : Replay H) (output : String) :
    List Line → String × Option LineFailure × Replay H
  | [] => (output, none, r)
  | line :: lines =>
    match r.step line.statement with
    | (.error cause, r) => (output, some ⟨line.number, cause⟩, r)
    | (.ok text, r) => run r (output ++ text) lines

end Replay

end RegionGuard.Trace
