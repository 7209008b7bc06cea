import RegionGuard.Access.Scalar

/-!
# Lengths of encoded values

A value is stored as exactly as many bytes as its access is wide.  For the machine
integer types this is a law about the instances, so it is stated as a class that
all six of them satisfy.
-/

namespace RegionGuard

/-- A value is written in as many bytes as its access covers. -/
theorem Access.length_encode (access : Access) (value : Int64) :
    (access.encode value).length = access.width.bytes.toNat :=
  length_littleEndian _ _

/-- A type whose values have as many bytes as its access covers. -/
class LawfulScalar (α : Type) [Scalar α] : Prop where
  length_toBytes : ∀ value : α,
    (Scalar.toBytes value).length = (Scalar.access α).width.bytes.toNat

instance : LawfulScalar Int8 := ⟨fun _ => length_littleEndian _ _⟩

instance : LawfulScalar UInt8 := ⟨fun _ => length_littleEndian _ _⟩

instance : LawfulScalar Int16 := ⟨fun _ => length_littleEndian _ _⟩

instance : LawfulScalar UInt16 := ⟨fun _ => length_littleEndian _ _⟩

instance : LawfulScalar Int32 := ⟨fun _ => length_littleEndian _ _⟩

instance : LawfulScalar UInt32 := ⟨fun _ => length_littleEndian _ _⟩

end RegionGuard
