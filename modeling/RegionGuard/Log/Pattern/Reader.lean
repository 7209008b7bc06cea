import RegionGuard.Log.Pattern.Set
import RegionGuard.Text.Letter

/-!
# Well-formed patterns

A pattern is a regular expression: atoms and sets that follow one another,
repetitions behind them, groups, and alternatives between bars.  Patterns are only
checked here.  A directive that compares a field with a pattern concerns messages
inside spans, and none is reported there, so no pattern is ever matched.

A pattern is read from left to right.  The groups that are open form a stack of
levels, and each level keeps the depth of what it holds, because a pattern may not
be nested deeper than `depthLimit`.
-/

namespace RegionGuard.Log.Pattern

/-- A group whose closing mark has not been read, or the whole pattern. -/
structure Level where
  /-- The mode outside. -/
  outer : Mode
  /-- The alternatives before the last bar. -/
  branches : Parts
  /-- The parts behind it. -/
  items : Parts
  /-- The depth of the last part, if it can be repeated. -/
  last : Option Nat
  deriving DecidableEq, Repr

namespace Level

/-- A level without parts. -/
def empty (outer : Mode) : Level := ⟨outer, .none, .none, none⟩

/-- The level with one more part, which can be repeated. -/
def push (level : Level) (depth : Nat) : Level :=
  { level with items := level.items.push depth, last := some depth }

/-- The level with a directive about flags as its next part. -/
def pushFlags (level : Level) : Level :=
  { level with items := level.items.push 0, last := none }

/-- The level after its last part was repeated. -/
def repeatLast? (level : Level) : Option Level :=
  level.last.map fun depth =>
    { level with items := level.items.wrap (depth + 1), last := some (depth + 1) }

/-- The alternatives of a level. -/
def alternatives (level : Level) : Parts :=
  level.branches.push level.items.depth

/-- The level behind a bar. -/
def bar (level : Level) : Level :=
  { level with branches := level.alternatives, items := .none, last := none }

/-- The depth of a level. -/
def depth (level : Level) : Nat := level.alternatives.depth

end Level

/-- What has been read of a pattern. -/
structure State where
  /-- How the rest is read. -/
  mode : Mode
  /-- The names of the groups. -/
  names : List (List Char)
  /-- The innermost open group. -/
  level : Level
  /-- The levels around it, the innermost first. -/
  outer : List Level
  deriving DecidableEq, Repr

namespace State

/-- The state at the start of a pattern. -/
def start : State := ⟨.start, [], .empty .start, []⟩

/-- The state after a part that can be repeated. -/
def push (state : State) (depth : Nat) : State :=
  { state with level := state.level.push depth }

/-- The state behind the start of a group that is read in the given mode. -/
def openGroup (state : State) (mode : Mode) : State :=
  { state with mode := mode, level := .empty state.mode, outer := state.level :: state.outer }

/-- The state behind the end of a group. -/
def closeGroup? (state : State) : Option State :=
  match state.outer with
  | [] => none
  | level :: outer =>
    some { state with
      mode := state.level.outer
      level := level.push (state.level.depth + 1)
      outer := outer }

/-- Whether a pattern may end here. -/
def isFinal (state : State) : Bool :=
  state.outer.isEmpty && state.level.depth ≤ depthLimit

end State

/-- Whether a text names a group: a letter or an underscore comes first, then also
numbers, dots and brackets. -/
def isGroupName : List Char → Bool
  | [] => false
  | c :: rest =>
    (c == '_' || Text.isLetter c) &&
      rest.all fun d => d == '_' || d == '.' || d == '[' || d == ']' || Text.isAlphanumeric d

/-- Reads the name of a group and starts the group. -/
def readNamedGroup (state : State) (text : List Char) : Option (State × List Char) :=
  match Text.splitFirst? '>' text with
  | none => none
  | some (name, rest) =>
    if isGroupName name && !state.names.contains name then
      some ({ state with names := name :: state.names }.openGroup state.mode, rest)
    else none

/-- Reads what stands behind an opening parenthesis up to the parts of the group. -/
def readGroupStart (state : State) : List Char → Option (State × List Char)
  | '?' :: 'P' :: '<' :: rest => readNamedGroup state rest
  | '?' :: '<' :: rest => readNamedGroup state rest
  | '?' :: rest =>
    match readFlags state.mode [] rest with
    | none => none
    | some (mode, .directive, rest) =>
      some ({ state with mode := mode, level := state.level.pushFlags }, rest)
    | some (mode, .group, rest) => some (state.openGroup mode, rest)
  | rest => some (state.openGroup state.mode, rest)

/-- Reads a repetition behind its mark; a question mark that follows at once makes it
take as little as possible. -/
def readRepetition (state : State) (rest : List Char) : Option (State × List Char) :=
  match state.level.repeatLast? with
  | none => none
  | some level =>
    let rest :=
      match rest with
      | '?' :: rest => rest
      | rest => rest
    some ({ state with level := level }, rest)

/-- Reads the next part of a pattern.  A counted repetition is never well formed,
because its closing brace would already have ended the field. -/
def readPart (state : State) : List Char → Option (State × List Char)
  | [] => none
  | c :: rest =>
    if c = '(' then readGroupStart state (state.mode.skip rest)
    else if c = ')' then state.closeGroup?.map fun state => (state, rest)
    else if c = '|' then some ({ state with level := state.level.bar }, rest)
    else if c = '[' then
      (readSet state.mode rest).map fun (depth, rest) => (state.push depth, rest)
    else if c = '?' || c = '*' || c = '+' then readRepetition state rest
    else if c = '\x7b' then none
    else
      match readAtom state.mode (c :: rest) with
      | none => none
      | some (atom, rest) =>
        if atom.isAdmitted state.mode then some (state.push 0, rest) else none

/-- Reads a pattern to its end. -/
def readParts : Nat → State → List Char → Bool
  | 0, _, _ => false
  | fuel + 1, state, text =>
    match state.mode.skip text with
    | [] => state.isFinal
    | text =>
      match readPart state text with
      | none => false
      | some (state, rest) => readParts fuel state rest

/-- Whether a text is a well-formed pattern.  Every part takes a character, so there
are at most as many parts as characters. -/
def isWellFormed (text : List Char) : Bool :=
  readParts (text.length + 1) .start text

end RegionGuard.Log.Pattern
