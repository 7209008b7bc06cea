import RegionGuard.Access.Basic

/-!
# Typed accesses

The six machine integer types that a load or store may be typed with.  Each
has its own way to and from bytes, and a conversion from and to the 64-bit
values of untyped accesses.
-/

namespace RegionGuard

/-- A machine integer type that can be loaded and stored. -/
class Scalar (α : Type) where
  /-- The access that moves a value of the type. -/
  access : Access
  /-- Keeps the low bits of a value. -/
  ofInt64 : Int64 → α
  /-- The value as a 64-bit integer. -/
  toInt64 : α → Int64
  /-- The bytes of a value. -/
  toBytes : α → List UInt8
  /-- The value of as many bytes as the type has. -/
  ofBytes? : List UInt8 → Option α

namespace Scalar

/-- Applies a conversion to the number that `count` bytes stand for. -/
def ofExactly {α : Type} (count : Nat) (convert : Nat → α) (bytes : List UInt8) : Option α :=
  if bytes.length = count then some (convert (ofLittleEndian bytes)) else none

end Scalar

instance : Scalar Int8 where
  access := ⟨.byte, .signed⟩
  ofInt64 v := v.toInt8
  toInt64 x := x.toInt64
  toBytes x := littleEndian 1 x.toUInt8.toNat
  ofBytes? := Scalar.ofExactly 1 fun n => Int8.ofNat n

instance : Scalar UInt8 where
  access := ⟨.byte, .unsigned⟩
  ofInt64 v := v.toUInt64.toUInt8
  toInt64 x := Int64.ofNat x.toNat
  toBytes x := littleEndian 1 x.toNat
  ofBytes? := Scalar.ofExactly 1 UInt8.ofNat

instance : Scalar Int16 where
  access := ⟨.half, .signed⟩
  ofInt64 v := v.toInt16
  toInt64 x := x.toInt64
  toBytes x := littleEndian 2 x.toUInt16.toNat
  ofBytes? := Scalar.ofExactly 2 fun n => Int16.ofNat n

instance : Scalar UInt16 where
  access := ⟨.half, .unsigned⟩
  ofInt64 v := v.toUInt64.toUInt16
  toInt64 x := Int64.ofNat x.toNat
  toBytes x := littleEndian 2 x.toNat
  ofBytes? := Scalar.ofExactly 2 UInt16.ofNat

instance : Scalar Int32 where
  access := ⟨.word, .signed⟩
  ofInt64 v := v.toInt32
  toInt64 x := x.toInt64
  toBytes x := littleEndian 4 x.toUInt32.toNat
  ofBytes? := Scalar.ofExactly 4 fun n => Int32.ofNat n

instance : Scalar UInt32 where
  access := ⟨.word, .unsigned⟩
  ofInt64 v := v.toUInt64.toUInt32
  toInt64 x := Int64.ofNat x.toNat
  toBytes x := littleEndian 4 x.toNat
  ofBytes? := Scalar.ofExactly 4 UInt32.ofNat

end RegionGuard
