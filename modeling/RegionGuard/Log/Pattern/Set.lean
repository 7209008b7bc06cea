import RegionGuard.Log.Pattern.Atom
import RegionGuard.Log.Pattern.Nesting

/-!
# Sets of characters in a pattern

A set stands in brackets.  Its members are characters, ranges, named classes and
other sets, and the operators `&&`, `--` and `~~` combine what stands left of them
with what stands right of them.  A circumflex behind the opening bracket negates
the set, and hyphens, or else one closing bracket, may follow there as members.
-/

namespace RegionGuard.Log.Pattern

/-- The named classes. -/
def classNames : List String :=
  ["alnum", "alpha", "ascii", "blank", "cntrl", "digit", "graph", "lower", "print", "punct",
    "space", "upper", "word", "xdigit"]

/-- A set whose closing bracket has not been read. -/
structure OpenSet where
  /-- The depth of what stands left of the last operator, if there is one. -/
  left : Option Nat
  /-- The members behind it. -/
  members : Parts
  deriving DecidableEq, Repr

namespace OpenSet

/-- The set with one more member of the given depth. -/
def push (set : OpenSet) (depth : Nat) : OpenSet :=
  { set with members := set.members.push depth }

/-- The depth of what has been read of a set. -/
def depth (set : OpenSet) : Nat :=
  match set.left with
  | none => set.members.depth
  | some left => max left set.members.depth + 1

/-- The set behind an operator. -/
def operator (set : OpenSet) : OpenSet :=
  ⟨some set.depth, .none⟩

end OpenSet

/-- Reads the name of a class behind its opening bracket; the first part of the
result says whether the class is negated. -/
def readClassName : List Char → Option (Bool × List Char)
  | ':' :: '^' :: rest => (close rest).map fun rest => (true, rest)
  | ':' :: rest => (close rest).map fun rest => (false, rest)
  | _ => none
where
  /-- The text behind the name and its closing marks. -/
  close (text : List Char) : Option (List Char) :=
    match Text.splitFirst? ':' text with
    | some (name, ']' :: rest) =>
      if classNames.contains (String.ofList name) then some rest else none
    | _ => none

/-- Whether a named class may be a member of a set. -/
def admitsClass (mode : Mode) (negated : Bool) : Bool :=
  if mode.unicode then mode.admitsLiteral else !negated

/-- Reads the hyphens that are the first members of a set. -/
def readHyphens (mode : Mode) (set : OpenSet) (text : List Char) : OpenSet × List Char :=
  match text with
  | [] => (set, [])
  | c :: rest =>
    if c = '-' then readHyphens mode (set.push 0) (mode.skip rest)
    else (set, c :: rest)
termination_by text.length
decreasing_by
  have := mode.length_skip_le rest
  simp only [List.length_cons]
  omega

/-- Reads the start of a set behind its opening bracket.  A negated set of bytes
holds bytes that are no text, so it is refused. -/
def readSetStart (mode : Mode) (text : List Char) : Option (OpenSet × List Char) :=
  let empty : OpenSet := ⟨none, .none⟩
  let hyphens : Bool × OpenSet × List Char :=
    match mode.skip text with
    | '^' :: rest => (true, readHyphens mode empty (mode.skip rest))
    | rest => (false, readHyphens mode empty rest)
  let (negated, set, rest) := hyphens
  let (set, rest) :=
    match set.members.count, rest with
    | 0, ']' :: rest => (set.push 0, rest)
    | _, rest => (set, rest)
  if negated && !mode.unicode then none
  else if set.members.count != 0 && !mode.admitsLiteral then none
  else some (set, rest)

/-- Reads a character, a class or a range inside a set and returns the text behind
it.  A hyphen before a closing bracket or another hyphen makes no range. -/
def readMember (mode : Mode) (text : List Char) : Option (List Char) :=
  match readSetAtom mode text with
  | none => none
  | some (first, rest) =>
    match mode.skip rest with
    | [] => none
    | c :: next =>
      if c != '-' || mode.peek? next == some ']' || mode.peek? next == some '-' then
        if first.isMember mode then some (c :: next) else none
      else
        match readSetAtom mode (mode.skip next) with
        | none => none
        | some (last, rest) =>
          match first.char?, last.char? with
          | some low, some high =>
            if low ≤ high && first.isMember mode && last.isMember mode then some rest else none
          | _, _ => none

/-- Reads a set from behind its start to its closing bracket and returns its depth.
`outer` holds the sets around it, the innermost first. -/
def readMembers (mode : Mode) : Nat → OpenSet → List OpenSet → List Char →
    Option (Nat × List Char)
  | 0, _, _, _ => none
  | fuel + 1, set, outer, text =>
    match mode.skip text with
    | [] => none
    | ']' :: rest =>
      match outer with
      | [] => some (set.depth + 1, rest)
      | parent :: outer => readMembers mode fuel (parent.push (set.depth + 1)) outer rest
    | '[' :: rest =>
      match readClassName rest with
      | some (negated, rest) =>
        if admitsClass mode negated then readMembers mode fuel (set.push 0) outer rest
        else none
      | none =>
        match readSetStart mode rest with
        | none => none
        | some (inner, rest) => readMembers mode fuel inner (set :: outer) rest
    | '&' :: '&' :: rest => readMembers mode fuel set.operator outer rest
    | '-' :: '-' :: rest => readMembers mode fuel set.operator outer rest
    | '~' :: '~' :: rest => readMembers mode fuel set.operator outer rest
    | text =>
      match readMember mode text with
      | none => none
      | some rest => readMembers mode fuel (set.push 0) outer rest

/-- Reads a set behind its opening bracket and returns its depth.  Every member and
every mark takes a character, so the length of the text bounds their number. -/
def readSet (mode : Mode) (text : List Char) : Option (Nat × List Char) :=
  match readSetStart mode text with
  | none => none
  | some (set, rest) => readMembers mode rest.length set [] rest

end RegionGuard.Log.Pattern
