import RegionGuard.Log.Pattern.Mode
import RegionGuard.Text.Numeral

/-!
# The smallest parts of a pattern

An atom is a character or a mark that stands for a class of characters or for a
place.  Which atoms may stand in a pattern depends on its mode: no tables of
classes are at hand for characters, and a pattern about bytes may not match bytes
that are no text.
-/

namespace RegionGuard.Log.Pattern

/-- A smallest part of a pattern. -/
inductive Atom
  /-- A character. -/
  | literal (c : Char)
  /-- A number of two hexadecimal digits, which is a byte in a pattern about bytes. -/
  | byte (c : Char)
  /-- Digits, blanks or word characters, or the characters outside such a class. -/
  | shorthand (negated : Bool)
  /-- An end of a word. -/
  | boundary
  /-- An end of the text or of a line. -/
  | anchor
  /-- Any character. -/
  | any
  deriving DecidableEq, Repr

namespace Atom

/-- Whether an atom may stand outside a set. -/
def isAdmitted (mode : Mode) : Atom → Bool
  | literal _ => mode.admitsLiteral
  | byte c => if mode.unicode then mode.admitsLiteral else c.toNat < 0x80
  | shorthand negated => !mode.unicode && !negated
  | boundary => !mode.unicode
  | anchor => true
  | any => mode.unicode

/-- The character of an atom that stands for one. -/
def char? : Atom → Option Char
  | literal c => some c
  | byte c => some c
  | _ => none

/-- Whether an atom may be a member of a set. -/
def isMember (mode : Mode) : Atom → Bool
  | literal c => if mode.unicode then mode.admitsLiteral else c.toNat < 0x80
  | byte c => if mode.unicode then mode.admitsLiteral else c.toNat < 0x80
  | shorthand negated => !mode.unicode && !negated
  | _ => false

end Atom

/-- Reads so many hexadecimal digits behind an already read value. -/
def readHex (mode : Mode) : Nat → Nat → List Char → Option (Nat × List Char)
  | 0, value, text => some (value, mode.skip text)
  | digits + 1, value, text =>
    match mode.skip text with
    | [] => none
    | c :: rest =>
      match Text.Base.hexadecimal.digit? c with
      | none => none
      | some d => readHex mode digits (16 * value + d) rest

/-- Reads the number of a character, which has the given count of digits. -/
def readCode (mode : Mode) (digits : Nat) (text : List Char) : Option (Char × List Char) :=
  match readHex mode digits 0 text with
  | none => none
  | some (value, rest) =>
    if value.isValidChar then some (Char.ofNat value, rest) else none

/-- The letters that stand for controls behind a backslash. -/
def controls : List (Char × Char) :=
  [('a', '\x07'), ('f', '\x0c'), ('t', '\t'), ('n', '\n'), ('r', '\r'), ('v', '\x0b')]

/-- The atom that a backslash and a character stand for, if no digits follow.  A
punctuation mark or another character of ASCII that is neither a letter nor a digit
stands for itself. -/
def escape? (c : Char) : Option Atom :=
  if c ∈ ['d', 's', 'w'] then some (.shorthand false)
  else if c ∈ ['D', 'S', 'W'] then some (.shorthand true)
  else if c ∈ ['A', 'z'] then some .anchor
  else if c ∈ ['b', 'B', '<', '>'] then some .boundary
  else if c.toNat < 0x80 && !c.isAlphanum then some (.literal c)
  else (controls.lookup c).map .literal

/-- Reads an escape behind its backslash. -/
def readEscape (mode : Mode) : List Char → Option (Atom × List Char)
  | [] => none
  | c :: rest =>
    if c = 'x' then (readCode mode 2 rest).map fun (code, rest) => (.byte code, rest)
    else if c = 'u' then (readCode mode 4 rest).map fun (code, rest) => (.literal code, rest)
    else if c = 'U' then (readCode mode 8 rest).map fun (code, rest) => (.literal code, rest)
    else (escape? c).map fun atom => (atom, rest)

/-- Reads an atom outside a set. -/
def readAtom (mode : Mode) : List Char → Option (Atom × List Char)
  | [] => none
  | c :: rest =>
    if c = '\\' then readEscape mode rest
    else if c = '.' then some (.any, rest)
    else if c = '^' || c = '$' then some (.anchor, rest)
    else some (.literal c, rest)

/-- Reads an atom inside a set, where only the backslash has a meaning of its own. -/
def readSetAtom (mode : Mode) : List Char → Option (Atom × List Char)
  | [] => none
  | c :: rest => if c = '\\' then readEscape mode rest else some (.literal c, rest)

end RegionGuard.Log.Pattern
