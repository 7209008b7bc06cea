import RegionGuard.Log.Directive

/-!
# Which messages are logged

A filter is a list of directives that commas separate.  The most specific directive
that concerns a message decides about it, and of equally specific ones the last.  A
malformed directive is ignored, and a filter without a directive lets errors
through.
-/

namespace RegionGuard.Log

/-- The directives of a filter, in order. -/
structure Filter where
  /-- The directives. -/
  directives : List Directive
  deriving DecidableEq, Repr

namespace Filter

/-- The directives among the parts of a filter.  Malformed ones are left out, and
there is no result if one cannot be cut into its parts. -/
def collect? : List (List Char) → Option (List Directive)
  | [] => some []
  | part :: parts =>
    match Directive.read part with
    | .ok directive => (collect? parts).map (directive :: ·)
    | .error .malformed => collect? parts
    | .error .insideCharacter => none

/-- Reads a filter, if its directives can be cut into their parts. -/
def ofText? (text : List Char) : Option Filter :=
  (collect? (Text.fields (· == ',') text)).map Filter.mk

/-- The most specific of some directives; of equally specific ones the last. -/
def mostSpecific? (directives : List Directive) : Option Directive :=
  directives.foldl
    (fun best directive =>
      match best with
      | none => some directive
      | some best => if directive.lessSpecific best then some best else some directive)
    none

/-- Whether an error is logged that is reported outside every span. -/
def logsError (filter : Filter) (target : List Char) (fields : List (List Char)) : Bool :=
  match mostSpecific? (filter.directives.filter (·.concerns target fields)) with
  | some directive => directive.level != .off
  | none => filter.directives.isEmpty

end Filter

end RegionGuard.Log
