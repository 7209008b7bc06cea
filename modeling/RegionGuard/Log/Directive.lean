import RegionGuard.Log.Level
import RegionGuard.Log.Value

/-!
# Directives about a log

A directive sets a level for the messages of the modules whose names begin with its
target, or for all messages if it has none:

* `warn` or `2` sets a level for everything;
* `name` turns on everything for a target, and `name=warn` sets its level;
* `name[span]=warn` and `name[span{field=value}]=warn` set a level inside a span,
  which no failure of the command is reported in;
* `[{field}]=warn` sets a level for the messages that have a field.

The marks of a directive are looked for in the text without the blanks around it,
and their places are counted in bytes.  The parts are cut out of the whole text at
the same places.  So behind blanks at the front every part begins and ends too
early, and it may even begin or end inside a character.
-/

namespace RegionGuard.Log

/-- One part of a filter. -/
structure Directive where
  /-- What the names of the modules begin with; without characters, every name. -/
  target : List Char
  /-- The fields that a message must have. -/
  fields : List (List Char)
  /-- Whether the directive is about spans or about the values of fields, and so
  about no message outside a span. -/
  inSpan : Bool
  /-- How much is logged. -/
  level : Level
  deriving DecidableEq, Repr

/-- Why a text is no directive. -/
inductive DirectiveError
  /-- It does not have the form of one. -/
  | malformed
  /-- A part of it begins or ends inside a character. -/
  | insideCharacter
  deriving DecidableEq, Repr

/-! ### Places in a text -/

/-- The text behind so many bytes, if no character lies across that place. -/
def dropBytes? : Nat → List Char → Option (List Char)
  | 0, text => some text
  | _ + 1, [] => none
  | n + 1, c :: rest => if c.utf8Size ≤ n + 1 then dropBytes? (n + 1 - c.utf8Size) rest else none

/-- The text up to so many bytes, if no character lies across that place. -/
def takeBytes? : Nat → List Char → Option (List Char)
  | 0, _ => some []
  | _ + 1, [] => none
  | n + 1, c :: rest =>
    if c.utf8Size ≤ n + 1 then (takeBytes? (n + 1 - c.utf8Size) rest).map (c :: ·) else none

/-- The part of a text between two places. -/
def slice (text : List Char) (start stop : Nat) : Except DirectiveError (List Char) :=
  match (dropBytes? start text).bind (takeBytes? (stop - start)) with
  | some part => .ok part
  | none => .error .insideCharacter

/-- The part of a text from a place on. -/
def sliceFrom (text : List Char) (start : Nat) : Except DirectiveError (List Char) :=
  match dropBytes? start text with
  | some part => .ok part
  | none => .error .insideCharacter

/-- A character at its place. -/
structure Cell where
  /-- The number of bytes before the character. -/
  place : Nat
  /-- The character. -/
  char : Char
  deriving DecidableEq, Repr

/-- The characters of a text at their places, of which the first is given. -/
def cells (place : Nat) : List Char → List Cell
  | [] => []
  | c :: rest => ⟨place, c⟩ :: cells (place + c.utf8Size) rest

/-- The first of some marks, with what follows it. -/
def findMark? (marks : List Char) (line : List Cell) : Option (Cell × List Cell) :=
  match line.dropWhile fun cell => !marks.contains cell.char with
  | [] => none
  | cell :: rest => some (cell, rest)

namespace Directive

/-! ### Reading -/

/-- Whether a target or a level may start with a character. -/
def isStart (c : Char) : Bool :=
  c == '-' || c == ':' || c == '_' || Text.isAlphanumeric c

/-- Completes a directive with the text of its level; no text is the level that
logs everything. -/
def withLevel (directive : Directive) (text : List Char) : Except DirectiveError Directive :=
  if text.isEmpty then .ok { directive with level := .trace }
  else
    match Level.ofText? text with
    | some level => .ok { directive with level := level }
    | none => .error .malformed

/-- Reads what stands behind a closing bracket. -/
def readEnd (text : List Char) (directive : Directive) :
    List Cell → Except DirectiveError Directive
  | [] => .ok { directive with level := .trace }
  | mark :: _ =>
    if mark.char = '=' then do
      directive.withLevel (← sliceFrom text (mark.place + 1))
    else .error .malformed

/-- The directive about a field for the span `span`.  The text of the field may name
a value behind an equals sign, and ends at another one. -/
def withField (target span field : List Char) : Except DirectiveError Directive :=
  match Text.fields (· == '=') field with
  | name :: value :: _ =>
    if isValue value then .ok ⟨target, [name], true, .trace⟩ else .error .malformed
  | [name] =>
    if name.isEmpty then .error .malformed
    else .ok ⟨target, [name], !span.isEmpty, .trace⟩
  | [] => .error .malformed

/-- Reads a field, which starts at the given place, and the rest of the directive. -/
def readField (text target span : List Char) (start : Nat) (line : List Cell) :
    Except DirectiveError Directive :=
  match findMark? ['\x7d'] line with
  | none => .error .malformed
  | some (mark, rest) => do
    let directive ← withField target span (← slice text start mark.place)
    match rest with
    | bracket :: rest =>
      if bracket.char = ']' then readEnd text directive rest else .error .malformed
    | [] => .error .malformed

/-- Reads a span, which starts at the given place, and the rest of the directive. -/
def readSpan (text target : List Char) (start : Nat) (line : List Cell) :
    Except DirectiveError Directive :=
  match findMark? [']', '\x7b'] line with
  | none => .error .malformed
  | some (mark, rest) => do
    let span ← slice text start mark.place
    if mark.char = ']' then readEnd text ⟨target, [], true, .trace⟩ rest
    else readField text target span (mark.place + 1) rest

/-- The directive of a text without marks: a level for everything, or a target that
everything is logged of. -/
def ofWord (text : List Char) : Directive :=
  match Level.ofText? text with
  | some level => ⟨[], [], false, level⟩
  | none => ⟨text, [], false, .trace⟩

/-- Reads a directive that starts with a level or a target. -/
def readTarget (text : List Char) (line : List Cell) : Except DirectiveError Directive :=
  match findMark? ['=', '['] line with
  | none => .ok (ofWord text)
  | some (mark, rest) => do
    let target ← slice text 0 mark.place
    if mark.char = '=' then
      withLevel ⟨target, [], false, .trace⟩ (← sliceFrom text (mark.place + 1))
    else readSpan text target (mark.place + 1) rest

/-- Reads a directive. -/
def read (text : List Char) : Except DirectiveError Directive :=
  match cells 0 (Text.trim text) with
  | [] => .error .malformed
  | first :: rest =>
    if first.char = '[' then readSpan text [] (first.place + 1) rest
    else if isStart first.char then readTarget text (first :: rest)
    else .error .malformed

/-! ### Deciding about messages -/

/-- Whether a directive concerns a message outside every span, which has the given
fields. -/
def concerns (directive : Directive) (target : List Char) (fields : List (List Char)) :
    Bool :=
  !directive.inSpan && directive.target.isPrefixOf target &&
    directive.fields.all fun field => fields.contains field

/-- Whether a directive is less specific than another: its target is shorter, or it
names fewer fields for a target of the same length. -/
def lessSpecific (a b : Directive) : Bool :=
  a.target.length < b.target.length ||
    (a.target.length == b.target.length && a.fields.length < b.fields.length)

end Directive

end RegionGuard.Log
