import RegionGuard.Text.Split

/-!
# How a pattern is read

Flags such as `(?i)` change how the rest of a pattern is read.  Three of them
decide whether a pattern is well formed: whether it is about characters or about
bytes, whether the case of letters counts, and whether blanks and comments may
stand between its parts.
-/

namespace RegionGuard.Log.Pattern

/-- How a pattern is read. -/
structure Mode where
  /-- Whether the pattern is about characters; otherwise it is about bytes. -/
  unicode : Bool
  /-- Whether letters stand for both of their cases. -/
  caseless : Bool
  /-- Whether blanks and comments between the parts are skipped. -/
  spaced : Bool
  deriving DecidableEq, Repr

/-- Skips blanks and comments.  A comment starts at a number sign and ends with its
line; `inComment` says whether the text starts inside one. -/
def skipBlanks (inComment : Bool) : List Char → List Char
  | [] => []
  | c :: rest =>
    if inComment then skipBlanks (c != '\n') rest
    else if Text.isBlank c then skipBlanks false rest
    else if c = '#' then skipBlanks true rest
    else c :: rest

/-- The first character after blanks and at most one number sign, or the first
character at all if nothing else is left. -/
def peekBlanks (text : List Char) : Option Char :=
  match text.dropWhile Text.isBlank with
  | [] => text.head?
  | '#' :: rest => (rest.find? fun c => !Text.isBlank c).or text.head?
  | c :: _ => some c

namespace Mode

/-- The mode at the start of a pattern. -/
def start : Mode := ⟨true, false, false⟩

/-- The text from the next part on. -/
def skip (mode : Mode) (text : List Char) : List Char :=
  if mode.spaced then skipBlanks false text else text

/-- The character that the next part starts with, as far as a look ahead tells. -/
def peek? (mode : Mode) (text : List Char) : Option Char :=
  if mode.spaced then peekBlanks text else text.head?

/-- The mode with one flag switched; the flags that are not named here change what a
pattern matches, but not whether it is well formed. -/
def withFlag (mode : Mode) (flag : Char) (on : Bool) : Mode :=
  if flag = 'u' then { mode with unicode := on }
  else if flag = 'i' then { mode with caseless := on }
  else if flag = 'x' then { mode with spaced := on }
  else mode

/-- Whether a single character may stand in a pattern.  No tables of letter cases are
at hand for characters. -/
def admitsLiteral (mode : Mode) : Bool :=
  !(mode.unicode && mode.caseless)

end Mode

/-- The flags of a pattern. -/
def flags : List Char := ['i', 'm', 's', 'U', 'u', 'R', 'x']

/-- What flags are for. -/
inductive FlagsUse
  /-- They hold until the end of the group around them. -/
  | directive
  /-- They hold inside the group that they open. -/
  | group
  deriving DecidableEq, Repr

/-- Reads flags behind `(?` up to the mark that ends them.  A hyphen switches the
flags behind it off.  No flag and no hyphen may occur twice, a hyphen may not be the
last, and a directive has at least one flag.  `seen` holds what has been read, the
last first. -/
def readFlags (mode : Mode) (seen : List Char) :
    List Char → Option (Mode × FlagsUse × List Char)
  | [] => none
  | c :: rest =>
    if c = ')' then
      if seen.isEmpty || seen.head? == some '-' then none else some (mode, .directive, rest)
    else if c = ':' then
      if seen.head? == some '-' then none else some (mode, .group, rest)
    else if seen.contains c then none
    else if c = '-' || flags.contains c then
      readFlags (mode.withFlag c (!seen.contains '-')) (c :: seen) rest
    else none

/-- Skipping takes nothing away but what it skips. -/
theorem length_skipBlanks_le (inComment : Bool) (text : List Char) :
    (skipBlanks inComment text).length ≤ text.length := by
  fun_induction skipBlanks inComment text with
  | case1 => simp
  | case2 => simp only [List.length_cons]; omega
  | case3 => simp only [List.length_cons]; omega
  | case4 => simp only [List.length_cons]; omega
  | case5 => simp

/-- What a mode skips makes a text no longer. -/
theorem Mode.length_skip_le (mode : Mode) (text : List Char) :
    (mode.skip text).length ≤ text.length := by
  unfold Mode.skip
  split
  · exact length_skipBlanks_le false text
  · exact Nat.le_refl _

end RegionGuard.Log.Pattern
