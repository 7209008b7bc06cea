import RegionGuard.Trace.Statement
import RegionGuard.Address.Zone

/-!
# Reading a trace

A trace is read line by line.  What stands behind a number sign is a comment,
the rest is cut into words at blanks, and a line without words says nothing.
Of several faults in a line, the leftmost argument's is reported; only an
expected state is read before the name in front of it.
-/

namespace RegionGuard.Trace

/-- Why words are not a statement. -/
inductive StatementError
  /-- The keyword has a different number of arguments. -/
  | argumentCount (keyword : Keyword) (found : Nat)
  /-- There is no such keyword. -/
  | unknownStatement (text : String)
  /-- A pointer cannot have this name. -/
  | badName (text : String)
  /-- A number of 32 bits is malformed. -/
  | badWord (cause : WordError)
  /-- A signed number is malformed. -/
  | badNumber (text : String) (cause : Text.NumeralError)
  /-- A signed number has no 32-bit value. -/
  | offsetRange (text : String) (cause : Text.NumeralError)
  /-- There is no such kind of access. -/
  | unknownAccess (text : String)
  /-- There is no such state of a pointer. -/
  | unknownState (text : String)
  deriving DecidableEq, Repr

/-- The wording of each cause. -/
def StatementError.message : StatementError → String
  | .argumentCount keyword found =>
    s!"`{keyword.word}` takes {keyword.arity} argument(s), found {found}"
  | .unknownStatement text => s!"unknown statement `{text}`"
  | .badName text => s!"`{text}` is not a valid pointer name"
  | .badWord cause => cause.message
  | .badNumber text cause => s!"`{text}` is not a number: {cause.message}"
  | .offsetRange text cause => s!"offset `{text}` does not fit in 32 bits: {cause.message}"
  | .unknownAccess text => Access.unknownMessage text
  | .unknownState text => s!"expected valid, invalid or null, found `{text}`"

/-- A fault and the number of its line. -/
structure ParseError where
  /-- The line's number. -/
  line : Nat
  /-- What is wrong with it. -/
  cause : StatementError
  deriving DecidableEq, Repr

/-- The wording of the fault. -/
def ParseError.message (e : ParseError) : String :=
  s!"line {e.line}: {e.cause.message}"

/-- Whether a name may start with a character. -/
def isNameStart (c : Char) : Bool :=
  c.isAlpha || c == '_'

/-- Whether a name may go on with a character. -/
def isNameRest (c : Char) : Bool :=
  c.isAlphanum || c == '_'

/-- Whether a text is the name of a pointer: ASCII letters, digits and underscores,
with no digit in front. -/
def isName : List Char → Bool
  | [] => false
  | c :: rest => isNameStart c && rest.all isNameRest

/-- Reads the name of a pointer. -/
def readName (text : List Char) : Except StatementError String :=
  if isName text then .ok (String.ofList text) else .error (.badName (String.ofList text))

/-- Reads an address or a size. -/
def readSize (text : List Char) : Except StatementError UInt32 :=
  (readWord text).mapError .badWord

/-- Reads a signed number: a minus sign, the mark of the base and the digits.
The digits may have a sign of their own, which the minus sign then reverses.  If they are
the least value, reversing it wraps around to the same value, as in a release build; a debug
build panics there. -/
def readSigned (text : List Char) : Except Text.NumeralError Int64 :=
  match text with
  | '-' :: magnitude =>
    let (base, digits) := Text.splitBase magnitude
    (Text.readInt64 base digits).map (- ·)
  | magnitude =>
    let (base, digits) := Text.splitBase magnitude
    Text.readInt64 base digits

/-- Reads a value of 64 bits. -/
def readValue (text : List Char) : Except StatementError Int64 :=
  (readSigned text).mapError (.badNumber (String.ofList text))

/-- Reads an offset, which is a value of 32 bits. -/
def readOffset (text : List Char) : Except StatementError Int32 :=
  match readValue text with
  | .error e => .error e
  | .ok value =>
    if Int32.maxValue.toInt < value.toInt then
      .error (.offsetRange (String.ofList text) .tooLarge)
    else if value.toInt < Int32.minValue.toInt then
      .error (.offsetRange (String.ofList text) .tooSmall)
    else .ok value.toInt32

/-- Reads a kind of access. -/
def readAccess (text : List Char) : Except StatementError Access :=
  match Access.ofWord? text with
  | some access => .ok access
  | none => .error (.unknownAccess (String.ofList text))

/-- Reads a state of a pointer. -/
def readState (text : List Char) : Except StatementError PointerState :=
  match PointerState.ofWord? text with
  | some state => .ok state
  | none => .error (.unknownState (String.ofList text))

/-- Reads a statement with a given keyword from its arguments. -/
def readArguments : Keyword → List (List Char) → Except StatementError Statement
  | .alloc, [name, size] => return .alloc (← readName name) (← readSize size)
  | .calloc, [name, count, size] =>
    return .calloc (← readName name) (← readSize count) (← readSize size)
  | .realloc, [name, size] => return .realloc (← readName name) (← readSize size)
  | .free, [name] => return .free (← readName name)
  | .assign, [name, addr] => return .assign (← readName name) (← readSize addr)
  | .region, [addr, size] => return .region (← readSize addr) (← readSize size)
  | .unregister, [addr] => return .unregister (← readSize addr)
  | .advance, [name, base, offset] =>
    return .advance (← readName name) (← readName base) (← readOffset offset)
  | .load, [name, offset, access] =>
    return .load (← readName name) (← readOffset offset) (← readAccess access)
  | .store, [name, offset, access, value] =>
    return .store (← readName name) (← readOffset offset) (← readAccess access)
      (← readValue value)
  | .expect, [name, state] => do
    let state ← readState state
    return .expect (← readName name) state
  | .expectLoad, [name, offset, access, value] =>
    return .expectLoad (← readName name) (← readOffset offset) (← readAccess access)
      (← readValue value)
  | keyword, arguments => .error (.argumentCount keyword arguments.length)

/-- Reads a statement from its words. -/
def readStatement (keyword : List Char) (arguments : List (List Char)) :
    Except StatementError Statement :=
  match Keyword.ofWord? keyword with
  | some keyword => readArguments keyword arguments
  | none => .error (.unknownStatement (String.ofList keyword))

/-- The words of a line before its comment. -/
def lineWords (text : List Char) : List (List Char) :=
  Text.words (text.takeWhile (· ≠ '#'))

/-- Reads lines of which the first has the given number. -/
def readLines (number : Nat) : List (List Char) → Except ParseError (List Line)
  | [] => .ok []
  | text :: rest =>
    match lineWords text with
    | [] => readLines (number + 1) rest
    | keyword :: arguments =>
      match readStatement keyword arguments with
      | .error cause => .error ⟨number, cause⟩
      | .ok statement => (readLines (number + 1) rest).map (⟨number, statement⟩ :: ·)

/-- Reads a whole trace. -/
def parse (source : String) : Except ParseError (List Line) :=
  readLines 1 (Text.lines source.toList)

end RegionGuard.Trace
