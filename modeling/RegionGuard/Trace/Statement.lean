import RegionGuard.Access.Basic
import RegionGuard.Address.Pointer

/-!
# Statements of a trace

A trace is a script of allocator events and pointer operations.  Each statement
is a keyword followed by a fixed number of arguments, and the pointers it works
on have names.
-/

namespace RegionGuard.Trace

/-- What a trace can expect of a pointer. -/
inductive PointerState
  | valid
  | invalid
  | null
  deriving DecidableEq, Repr

namespace PointerState

/-- The word for a state. -/
def word : PointerState → String
  | valid => "valid"
  | invalid => "invalid"
  | null => "null"

/-- Every state. -/
def all : List PointerState := [valid, invalid, null]

/-- The state with a given word. -/
def ofWord? (text : List Char) : Option PointerState :=
  all.find? fun state => state.word.toList == text

/-- The state of a pointer. -/
def of : Pointer → PointerState
  | .valid addr => if addr = 0 then null else valid
  | .invalid => invalid

end PointerState

/-- The first word of a statement. -/
inductive Keyword
  | alloc
  | calloc
  | realloc
  | free
  | assign
  | region
  | unregister
  | advance
  | load
  | store
  | expect
  | expectLoad
  deriving DecidableEq, Repr

namespace Keyword

/-- How a keyword is written. -/
def word : Keyword → String
  | alloc => "alloc"
  | calloc => "calloc"
  | realloc => "realloc"
  | free => "free"
  | assign => "let"
  | region => "region"
  | unregister => "unregister"
  | advance => "ptr"
  | load => "load"
  | store => "store"
  | expect => "expect"
  | expectLoad => "expect-load"

/-- How many arguments a statement with this keyword has. -/
def arity : Keyword → Nat
  | alloc => 2
  | calloc => 3
  | realloc => 2
  | free => 1
  | assign => 2
  | region => 2
  | unregister => 1
  | advance => 3
  | load => 3
  | store => 4
  | expect => 2
  | expectLoad => 4

/-- Every keyword. -/
def all : List Keyword :=
  [alloc, calloc, realloc, free, assign, region, unregister, advance, load, store, expect,
    expectLoad]

/-- The keyword that is written in a given way. -/
def ofWord? (text : List Char) : Option Keyword :=
  all.find? fun keyword => keyword.word.toList == text

end Keyword

/-- One step of a trace. -/
inductive Statement
  /-- Allocates bytes and names them. -/
  | alloc (name : String) (size : UInt32)
  /-- Allocates zeros and names them. -/
  | calloc (name : String) (count size : UInt32)
  /-- Resizes a named allocation. -/
  | realloc (name : String) (size : UInt32)
  /-- Gives a named allocation back. -/
  | free (name : String)
  /-- Names an address. -/
  | assign (name : String) (addr : Addr)
  /-- Registers memory. -/
  | region (addr : Addr) (size : UInt32)
  /-- Forgets a region. -/
  | unregister (addr : Addr)
  /-- Names the result of moving another named pointer. -/
  | advance (name base : String) (offset : Int32)
  /-- Loads a value and prints it. -/
  | load (name : String) (offset : Int32) (access : Access)
  /-- Stores a value. -/
  | store (name : String) (offset : Int32) (access : Access) (value : Int64)
  /-- Fails if a named pointer is in another state. -/
  | expect (name : String) (state : PointerState)
  /-- Fails if memory holds another value. -/
  | expectLoad (name : String) (offset : Int32) (access : Access) (value : Int64)
  deriving DecidableEq, Repr

/-- A statement and the number of its line, counted from 1. -/
structure Line where
  /-- The line's number. -/
  number : Nat
  /-- What the line says. -/
  statement : Statement
  deriving DecidableEq, Repr

end RegionGuard.Trace
