import RegionGuard.Text.Numeral

/-!
# Levels of a log

A level says how much is logged.  It has a word and a number, and the levels
ascend with their numbers from the one that logs nothing.
-/

namespace RegionGuard.Log

/-- How much is logged. -/
inductive Level
  | off
  | error
  | warn
  | info
  | debug
  | trace
  deriving DecidableEq, Repr

namespace Level

/-- The word for a level. -/
def word : Level → String
  | off => "off"
  | error => "error"
  | warn => "warn"
  | info => "info"
  | debug => "debug"
  | trace => "trace"

/-- Every level, from the one that logs nothing to the one that logs everything. -/
def all : List Level := [off, error, warn, info, debug, trace]

/-- The level with a given number or a given word, in which the case of the letters
does not matter. -/
def ofText? (text : List Char) : Option Level :=
  match Text.readUInt32 .decimal text with
  | .ok n => all[n.toNat]?
  | .error _ => all.find? fun level => level.word.toList == text.map Char.toLower

end Level

end RegionGuard.Log
