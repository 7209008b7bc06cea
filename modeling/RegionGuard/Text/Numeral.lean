/-!
# Reading numbers

Digits are read from left to right into an unbounded value that is compared
with the largest value allowed after every digit.  So a character that is no
digit is reported before an overflow that the same character would cause, and
after an overflow that an earlier digit has already caused.

One sign may stand before the digits.  A number of 32 bits has no negative
values, so there a minus sign is simply not a digit.
-/

namespace RegionGuard.Text

/-- Why a text is not a number of the wanted range. -/
inductive NumeralError
  /-- There is nothing to read. -/
  | empty
  /-- Some character is not a digit of the base. -/
  | invalidDigit
  /-- The value lies above the range. -/
  | tooLarge
  /-- The value lies below the range. -/
  | tooSmall
  deriving DecidableEq, Repr

/-- The wording of each cause. -/
def NumeralError.message : NumeralError → String
  | .empty => "cannot parse integer from empty string"
  | .invalidDigit => "invalid digit found in string"
  | .tooLarge => "number too large to fit in target type"
  | .tooSmall => "number too small to fit in target type"

/-- The two bases that numbers are written in. -/
inductive Base
  | decimal
  | hexadecimal
  deriving DecidableEq, Repr

/-- The number of digits of a base. -/
def Base.radix : Base → Nat
  | .decimal => 10
  | .hexadecimal => 16

/-- The value of an ASCII digit; the letters of a hexadecimal digit may be in
either case. -/
def Base.digit? (base : Base) (c : Char) : Option Nat :=
  if '0' ≤ c ∧ c ≤ '9' then some (c.toNat - 48)
  else match base with
    | .decimal => none
    | .hexadecimal =>
      if 'a' ≤ c ∧ c ≤ 'f' then some (c.toNat - 87)
      else if 'A' ≤ c ∧ c ≤ 'F' then some (c.toNat - 55)
      else none

/-- Reads digits behind an already read value `acc`, and stops with `overflow`
as soon as the value passes `limit`. -/
def readDigits (base : Base) (limit : Nat) (overflow : NumeralError) (acc : Nat) :
    List Char → Except NumeralError Nat
  | [] => .ok acc
  | c :: rest =>
    match base.digit? c with
    | none => .error .invalidDigit
    | some d =>
      if acc * base.radix + d ≤ limit then
        readDigits base limit overflow (acc * base.radix + d) rest
      else .error overflow

/-- Reads a magnitude, which has at least one digit after its sign. -/
def readMagnitude (base : Base) (limit : Nat) (overflow : NumeralError) :
    List Char → Except NumeralError Nat
  | [] => .error .invalidDigit
  | digits => readDigits base limit overflow 0 digits

/-- Reads a number of 32 bits, which a plus sign may precede. -/
def readUInt32 (base : Base) : List Char → Except NumeralError UInt32
  | [] => .error .empty
  | '+' :: digits => (readMagnitude base (UInt32.size - 1) .tooLarge digits).map UInt32.ofNat
  | digits => (readMagnitude base (UInt32.size - 1) .tooLarge digits).map UInt32.ofNat

/-- The number of values of 64 bits that are not negative, which is also the
magnitude of the least one. -/
abbrev int64Half : Nat := 1 <<< 63

/-- Reads a signed number of 64 bits, which one sign may precede. -/
def readInt64 (base : Base) : List Char → Except NumeralError Int64
  | [] => .error .empty
  | '+' :: digits =>
    (readMagnitude base (int64Half - 1) .tooLarge digits).map fun n : Nat => Int64.ofInt n
  | '-' :: digits =>
    (readMagnitude base int64Half .tooSmall digits).map fun n : Nat => Int64.ofInt (-n)
  | digits =>
    (readMagnitude base (int64Half - 1) .tooLarge digits).map fun n : Nat => Int64.ofInt n

/-- Separates the base mark `0x` or `0X` from the digits behind it. -/
def splitBase : List Char → Base × List Char
  | '0' :: 'x' :: digits => (.hexadecimal, digits)
  | '0' :: 'X' :: digits => (.hexadecimal, digits)
  | digits => (.decimal, digits)

end RegionGuard.Text
