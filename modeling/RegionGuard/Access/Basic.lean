/-!
# Kinds of access

A load or store has a width of one, two or four bytes, and a sign that decides
how a loaded value is extended.  Memory is little-endian.
-/

namespace RegionGuard

/-- How many bytes an access covers. -/
inductive Width
  | byte
  | half
  | word
  deriving DecidableEq, Repr

/-- The number of bytes. -/
def Width.bytes : Width → UInt32
  | .byte => 1
  | .half => 2
  | .word => 4

/-- Whether a loaded value has a sign. -/
inductive Signedness
  | signed
  | unsigned
  deriving DecidableEq, Repr

/-- The low `count` bytes of a number, the least significant first. -/
def littleEndian : Nat → Nat → List UInt8
  | 0, _ => []
  | count + 1, n => UInt8.ofNat n :: littleEndian count (n / 256)

/-- The number that bytes stand for, the least significant first. -/
def ofLittleEndian : List UInt8 → Nat
  | [] => 0
  | b :: bytes => b.toNat + 256 * ofLittleEndian bytes

/-- As many bytes are written as were asked for. -/
theorem length_littleEndian (count n : Nat) : (littleEndian count n).length = count := by
  induction count generalizing n with
  | zero => rfl
  | succ count ih => simp [littleEndian, ih]

/-- The kind of a load or store. -/
structure Access where
  /-- How many bytes it covers. -/
  width : Width
  /-- How a loaded value is extended. -/
  signedness : Signedness
  deriving DecidableEq, Repr

namespace Access

/-- The word for an access: `i` or `u` and the number of bits. -/
def word : Access → String
  | ⟨.byte, .signed⟩ => "i8"
  | ⟨.byte, .unsigned⟩ => "u8"
  | ⟨.half, .signed⟩ => "i16"
  | ⟨.half, .unsigned⟩ => "u16"
  | ⟨.word, .signed⟩ => "i32"
  | ⟨.word, .unsigned⟩ => "u32"

/-- Every access, in the order in which messages list them. -/
def all : List Access :=
  [⟨.byte, .signed⟩, ⟨.byte, .unsigned⟩, ⟨.half, .signed⟩, ⟨.half, .unsigned⟩,
    ⟨.word, .signed⟩, ⟨.word, .unsigned⟩]

/-- The access with a given word. -/
def ofWord? (text : List Char) : Option Access :=
  all.find? fun access => access.word.toList == text

/-- The message for a text that is no access word. -/
def unknownMessage (text : String) : String :=
  s!"unknown access type `{text}`, expected one of " ++ ", ".intercalate (all.map word)

/-- The bytes of the low part of a value. -/
def encode (access : Access) (value : Int64) : List UInt8 :=
  littleEndian access.width.bytes.toNat value.toUInt64.toNat

/-- The integer that a number of this width stands for: a signed one with its
top bit set is negative. -/
def extend (access : Access) (n : Nat) : Int :=
  let modulus : Nat := 1 <<< (8 * access.width.bytes.toNat)
  match access.signedness with
  | .unsigned => n
  | .signed => if 2 * n < modulus then n else n - modulus

/-- The value that bytes stand for, if there are as many as the access covers. -/
def decode (access : Access) (bytes : List UInt8) : Option Int64 :=
  if bytes.length = access.width.bytes.toNat then
    some (Int64.ofInt (access.extend (ofLittleEndian bytes)))
  else none

end Access

end RegionGuard
