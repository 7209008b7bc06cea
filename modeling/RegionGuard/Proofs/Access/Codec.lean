import RegionGuard.Proofs.Access.Scalar
import Mathlib.Data.Int.ModEq

/-!
# Bytes and values

Bytes stand for a number below the modulus of their width.  Encoding a value keeps its
residue modulo that number, and decoding picks the one integer with the residue that is in
the access's range.  So each is known by what it does to residues, and a value that is
stored with one access and loaded with another of the same width is looked at modulo the
modulus only: the sign of the storing access plays no part.

The machine integer types have ways to and from bytes of their own.  They agree with
those of their accesses, because they keep residues and ranges as well.
-/

namespace RegionGuard

/-! ## Numbers -/

/-- The number that bytes denote lies below 256 to the power of their count. -/
theorem ofLittleEndian_lt (bytes : List UInt8) : ofLittleEndian bytes < 256 ^ bytes.length := by
  induction bytes with
  | nil => exact Nat.one_pos
  | cons b bytes ih =>
      have hb := b.toNat_lt
      rw [ofLittleEndian, List.length_cons, Nat.pow_succ]
      omega

/-- Reading what has been written gives the number without what did not fit. -/
theorem ofLittleEndian_littleEndian (count n : Nat) :
    ofLittleEndian (littleEndian count n) = n % 256 ^ count := by
  induction count generalizing n with
  | zero => exact (Nat.mod_one n).symm
  | succ count ih =>
      have hpow : 256 ^ (count + 1) = 256 * 256 ^ count := Nat.pow_succ'
      rw [littleEndian, ofLittleEndian, ih, UInt8.toNat_ofNat', hpow, Nat.mod_mul]

/-- Writing what has been read gives the bytes back. -/
theorem littleEndian_ofLittleEndian (bytes : List UInt8) :
    littleEndian bytes.length (ofLittleEndian bytes) = bytes := by
  induction bytes with
  | nil => rfl
  | cons b bytes ih =>
      have hb : b.toNat < 256 := b.toNat_lt
      have hrest : (b.toNat + 256 * ofLittleEndian bytes) / 256 = ofLittleEndian bytes := by omega
      have hlow : UInt8.ofNat (b.toNat + 256 * ofLittleEndian bytes) = b := by
        apply UInt8.toNat_inj.mp
        rw [UInt8.toNat_ofNat']
        omega
      rw [ofLittleEndian, List.length_cons, littleEndian, hrest, hlow, ih]

/-- Bytes are known by their number and the number that they stand for. -/
theorem eq_of_ofLittleEndian_eq {bytes others : List UInt8} (hlength : bytes.length = others.length)
    (hnumber : ofLittleEndian bytes = ofLittleEndian others) : bytes = others := by
  rw [← littleEndian_ofLittleEndian bytes, hlength, hnumber, littleEndian_ofLittleEndian]

/-- How many numbers so many bytes stand for. -/
def Width.modulus (w : Width) : Nat :=
  2 ^ (8 * w.bytes.toNat)

theorem Width.modulus_eq (w : Width) : w.modulus = 256 ^ w.bytes.toNat :=
  Nat.pow_mul 2 8 _

theorem Width.modulus_le (w : Width) : w.modulus ≤ 4294967296 := by
  cases w <;> decide

/-- Every modulus divides `2 ^ 64`, so a value of 64 bits keeps its residue when it wraps. -/
theorem Width.modulus_dvd (w : Width) : (w.modulus : Int) ∣ 2 ^ 64 := by
  cases w <;> decide

/-- The two readings of a word differ by a multiple of its modulus. -/
theorem toNat_modEq_toInt {bits : Nat} (b : BitVec bits) :
    (b.toNat : Int) ≡ b.toInt [ZMOD ((2 ^ bits : Nat) : Int)] := by
  rw [BitVec.toInt_eq_toNat_bmod]
  exact Int.bmod_emod.symm

/-- The bits of a value have the residue of the value. -/
theorem toUInt64_modEq (w : Width) (v : Int64) :
    (v.toUInt64.toNat : Int) ≡ v.toInt [ZMOD w.modulus] :=
  (toNat_modEq_toInt v.toBitVec).of_dvd w.modulus_dvd

namespace Access

variable {a b : Access} {bytes : List UInt8} {v : Int64} {m n : Int}

/-- The integers that a load can give. -/
def InRange (a : Access) (n : Int) : Prop :=
  match a.signedness with
  | .unsigned => 0 ≤ n ∧ n < a.width.modulus
  | .signed => -(a.width.modulus : Int) ≤ 2 * n ∧ 2 * n < a.width.modulus

/-- Of the integers with the same residue only one is in range. -/
theorem InRange.eq_of_modEq (hm : a.InRange m) (hn : a.InRange n)
    (hmod : m ≡ n [ZMOD a.width.modulus]) : m = n := by
  have hsmall : |n - m| < (a.width.modulus : Int) := by
    rw [abs_lt]
    unfold InRange at hm hn
    split at hm <;> rename_i hsign <;> rw [hsign] at hn <;> dsimp only at hn <;>
      constructor <;> omega
  have hzero := Int.eq_zero_of_abs_lt_dvd hmod.dvd hsmall
  omega

/-- Whatever a load can give is a value of 64 bits. -/
theorem InRange.bounds (h : a.InRange n) : -2 ^ 63 ≤ n ∧ n < 2 ^ 63 := by
  have hle := a.width.modulus_le
  unfold InRange at h
  split at h <;> constructor <;> omega

/-- Extending by the sign or by zeros keeps the residue. -/
theorem extend_modEq (a : Access) (n : Nat) : a.extend n ≡ n [ZMOD a.width.modulus] := by
  unfold extend
  rw [Nat.one_shiftLeft]
  dsimp only
  split
  · exact .refl _
  · split
    · exact .refl _
    · exact Int.sub_emod_right _ _

/-- It gives an integer that is in range. -/
theorem inRange_extend {n : Nat} (hn : n < a.width.modulus) : a.InRange (a.extend n) := by
  unfold InRange extend
  rw [Nat.one_shiftLeft]
  change n < 2 ^ (8 * a.width.bytes.toNat) at hn
  unfold Width.modulus
  generalize 2 ^ (8 * a.width.bytes.toNat) = modulus at *
  cases a.signedness with
  | signed =>
      dsimp only
      split <;> constructor <;> omega
  | unsigned =>
      dsimp only
      omega

/-! ## Decoding and encoding -/

/-- As many bytes as an access covers denote a number below its modulus. -/
theorem ofLittleEndian_lt_modulus (w : Width) (hlength : bytes.length = w.bytes.toNat) :
    ofLittleEndian bytes < w.modulus := by
  rw [Width.modulus_eq, ← hlength]
  exact ofLittleEndian_lt bytes

/-- A value is decoded from as many bytes as the access covers, if it is in range and has
the residue of the number that they stand for. -/
theorem decode_eq_some_iff : a.decode bytes = some v ↔
    bytes.length = a.width.bytes.toNat ∧ a.InRange v.toInt ∧
      v.toInt ≡ ofLittleEndian bytes [ZMOD a.width.modulus] := by
  by_cases hlength : bytes.length = a.width.bytes.toNat
  · have hrange := inRange_extend (ofLittleEndian_lt_modulus a.width hlength)
    have hmod := a.extend_modEq (ofLittleEndian bytes)
    have hvalue : (Int64.ofInt (a.extend (ofLittleEndian bytes))).toInt =
        a.extend (ofLittleEndian bytes) :=
      Int64.toInt_ofInt_of_le hrange.bounds.1 hrange.bounds.2
    rw [decode, if_pos hlength]
    constructor
    · intro hsome
      obtain rfl := Option.some.inj hsome
      rw [hvalue]
      exact ⟨hlength, hrange, hmod⟩
    · rintro ⟨-, hv, hvmod⟩
      have hsame := hrange.eq_of_modEq hv (hmod.trans hvmod.symm)
      rw [Option.some.injEq, ← Int64.toInt_inj, hvalue, hsame]
  · simp [decode, hlength]

/-- Bytes encode a value if there are as many as the access covers and the number that
they stand for has its residue. -/
theorem encode_eq_iff : a.encode v = bytes ↔ bytes.length = a.width.bytes.toNat ∧
    (ofLittleEndian bytes : Int) ≡ v.toInt [ZMOD a.width.modulus] := by
  have hnumber : ofLittleEndian (a.encode v) = v.toUInt64.toNat % a.width.modulus := by
    rw [Width.modulus_eq]
    exact ofLittleEndian_littleEndian _ _
  have hmod : (ofLittleEndian (a.encode v) : Int) ≡ v.toInt [ZMOD a.width.modulus] := by
    rw [hnumber, Int.natCast_mod]
    exact (Int.mod_modEq _ _).trans (toUInt64_modEq _ v)
  constructor
  · rintro rfl
    exact ⟨a.length_encode v, hmod⟩
  · rintro ⟨hlength, hbytes⟩
    refine eq_of_ofLittleEndian_eq ((a.length_encode v).trans hlength.symm) ?_
    have hlt := ofLittleEndian_lt_modulus a.width (a.length_encode v)
    have hlt' := ofLittleEndian_lt_modulus a.width hlength
    exact ((Int.natCast_modEq_iff.mp (hmod.trans hbytes.symm)).eq_of_lt_of_lt hlt hlt')

/-- The right number of bytes can always be decoded. -/
theorem exists_decode (hlength : bytes.length = a.width.bytes.toNat) :
    ∃ v, a.decode bytes = some v :=
  ⟨_, if_pos hlength⟩

/-- What is stored with one access and loaded with another of the same width keeps its
residue. -/
theorem exists_decode_encode (hwidth : a.width = b.width) (v : Int64) :
    ∃ n, b.decode (a.encode v) = some n ∧ b.InRange n.toInt ∧
      n.toInt ≡ v.toInt [ZMOD b.width.modulus] := by
  obtain ⟨hlength, hmod⟩ := encode_eq_iff.mp (Eq.refl (a.encode v))
  rw [hwidth] at hlength hmod
  obtain ⟨n, hn⟩ := exists_decode hlength
  obtain ⟨-, hrange, hnmod⟩ := decode_eq_some_iff.mp hn
  exact ⟨n, hn, hrange, hnmod.trans hmod⟩

/-- Encoding what was decoded gives back the bytes, also with the other sign. -/
theorem encode_of_decode (hwidth : a.width = b.width) (h : b.decode bytes = some v) :
    a.encode v = bytes := by
  obtain ⟨hlength, -, hmod⟩ := decode_eq_some_iff.mp h
  rw [encode_eq_iff, hwidth]
  exact ⟨hlength, hmod.symm⟩

end Access

/-! ## Machine integer types -/

/-- The integer that the bits of an access stand for. -/
def Access.value (a : Access) (bits : BitVec (8 * a.width.bytes.toNat)) : Int :=
  match a.signedness with
  | .unsigned => bits.toNat
  | .signed => bits.toInt

/-- The value of some bits has their residue. -/
theorem Access.value_modEq (a : Access) (bits : BitVec (8 * a.width.bytes.toNat)) :
    a.value bits ≡ bits.toNat [ZMOD a.width.modulus] := by
  unfold Access.value
  split
  · exact .refl _
  · exact (toNat_modEq_toInt bits).symm

/-- It is an integer that a load can give, so residue and range determine it. -/
theorem Access.inRange_value (a : Access) (bits : BitVec (8 * a.width.bytes.toNat)) :
    a.InRange (a.value bits) := by
  have hlt := bits.isLt
  have hfrom := bits.le_two_mul_toInt
  have hto := bits.two_mul_toInt_lt
  unfold Access.InRange Access.value Width.modulus
  cases a.signedness with
  | signed =>
      dsimp only
      push_cast
      exact ⟨hfrom, hto⟩
  | unsigned =>
      dsimp only
      omega

namespace Scalar

/-- The bytes of a type are those of its access. -/
structure Agrees (α : Type) [Scalar α] : Prop where
  toBytes_eq : ∀ x : α, toBytes x = (access α).encode (toInt64 x)
  toBytes_ofInt64 : ∀ v : Int64, toBytes (ofInt64 v : α) = (access α).encode v
  map_ofBytes? : ∀ bytes, (ofBytes? bytes : Option α).map toInt64 = (access α).decode bytes

/-- The six types have the property. -/
structure ForEach (P : (α : Type) → [Scalar α] → Prop) : Prop where
  int8 : P Int8
  uint8 : P UInt8
  int16 : P Int16
  uint16 : P UInt16
  int32 : P Int32
  uint32 : P UInt32

theorem ForEach.imp {P Q : (α : Type) → [Scalar α] → Prop} (h : ForEach P)
    (himp : ∀ (α : Type) [Scalar α], P α → Q α) : ForEach Q where
  int8 := himp Int8 h.int8
  uint8 := himp UInt8 h.uint8
  int16 := himp Int16 h.int16
  uint16 := himp UInt16 h.uint16
  int32 := himp Int32 h.int32
  uint32 := himp UInt32 h.uint32

/-- A type agrees with its access if the bits of its values are what is stored, loaded and
kept of a longer value, and stand for the value as the access says. -/
theorem agrees_of_bits {α : Type} [Scalar α] {convert : Nat → α}
    (bits : α → BitVec (8 * (access α).width.bytes.toNat))
    (hto : ∀ x : α, toBytes x = littleEndian (access α).width.bytes.toNat (bits x).toNat)
    (hof : ∀ bytes, ofBytes? bytes = ofExactly (access α).width.bytes.toNat convert bytes)
    (hvalue : ∀ x : α, (toInt64 x).toInt = (access α).value (bits x))
    (hconvert : ∀ n, bits (convert n) = BitVec.ofNat _ n)
    (hlow : ∀ v : Int64, bits (ofInt64 v) = v.toBitVec.setWidth _) :
    Agrees α := by
  have hmod : ∀ x : α, (toInt64 x).toInt ≡ (bits x).toNat [ZMOD (access α).width.modulus] := by
    intro x
    rw [hvalue]
    exact Access.value_modEq _ _
  have hencode : ∀ (x : α) (v : Int64),
      ((bits x).toNat : Int) ≡ v.toInt [ZMOD (access α).width.modulus] →
      toBytes x = (access α).encode v := by
    intro x v hv
    refine (Access.encode_eq_iff.mpr ⟨?_, ?_⟩).symm
    · rw [hto, length_littleEndian]
    · rw [hto, ofLittleEndian_littleEndian, ← Width.modulus_eq, Int.natCast_mod]
      exact (Int.mod_modEq _ _).trans hv
  refine ⟨fun x => hencode x _ (hmod x).symm, fun v => hencode _ v ?_, fun bytes => ?_⟩
  · rw [hlow, BitVec.toNat_setWidth, Int.natCast_mod]
    exact (Int.mod_modEq _ _).trans (toUInt64_modEq _ v)
  · rw [hof, ofExactly]
    by_cases hlength : bytes.length = (access α).width.bytes.toNat
    · rw [if_pos hlength]
      refine (Access.decode_eq_some_iff.mpr ⟨hlength, ?_, (hmod _).trans ?_⟩).symm
      · rw [hvalue]
        exact Access.inRange_value _ _
      · rw [hconvert, BitVec.toNat_ofNat, Int.natCast_mod]
        exact Int.mod_modEq _ _
    · rw [if_neg hlength, Access.decode, if_neg hlength]
      rfl

/-- Of each type it is known which integers its bits stand for. -/
theorem forEach_agrees : ForEach Agrees where
  int8 := agrees_of_bits Int8.toBitVec (fun _ => rfl) (fun _ => rfl) Int8.toInt_toInt64
    (fun _ => rfl) fun v => BitVec.signExtend_eq_setWidth_of_le v.toBitVec (by decide)
  uint8 := agrees_of_bits UInt8.toBitVec (fun _ => rfl) (fun _ => rfl)
    (fun x => Int64.toInt_ofNat_of_lt (Nat.lt_trans x.toNat_lt (by decide)))
    (fun _ => rfl) fun _ => rfl
  int16 := agrees_of_bits Int16.toBitVec (fun _ => rfl) (fun _ => rfl) Int16.toInt_toInt64
    (fun _ => rfl) fun v => BitVec.signExtend_eq_setWidth_of_le v.toBitVec (by decide)
  uint16 := agrees_of_bits UInt16.toBitVec (fun _ => rfl) (fun _ => rfl)
    (fun x => Int64.toInt_ofNat_of_lt (Nat.lt_trans x.toNat_lt (by decide)))
    (fun _ => rfl) fun _ => rfl
  int32 := agrees_of_bits Int32.toBitVec (fun _ => rfl) (fun _ => rfl) Int32.toInt_toInt64
    (fun _ => rfl) fun v => BitVec.signExtend_eq_setWidth_of_le v.toBitVec (by decide)
  uint32 := agrees_of_bits UInt32.toBitVec (fun _ => rfl) (fun _ => rfl)
    (fun x => Int64.toInt_ofNat_of_lt (Nat.lt_trans x.toNat_lt (by decide)))
    (fun _ => rfl) fun _ => rfl

end Scalar

end RegionGuard
