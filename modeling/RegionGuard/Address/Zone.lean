import RegionGuard.Address.Slot
import RegionGuard.Address.Pointer
import RegionGuard.Text.Numeral
import RegionGuard.Text.Split

/-!
# Zones

A zone is a range of addresses given by its start and its size.  Its end may
lie past the address space, so ends are compared as unbounded numbers.

A zone is written `ADDR:SIZE`; both parts are numbers of 32 bits, decimal or
hexadecimal behind `0x`, in which underscores may be used to group the digits.
-/

namespace RegionGuard

/-- A text that should have been a number of 32 bits. -/
structure WordError where
  /-- The text without the blanks around it. -/
  text : String
  /-- What is wrong with it. -/
  cause : Text.NumeralError
  deriving DecidableEq, Repr

/-- The wording of the error. -/
def WordError.message (e : WordError) : String :=
  s!"`{e.text}` is not a 32-bit number: {e.cause.message}"

/-- Reads a number of 32 bits.  Blanks around it are dropped, the base mark
comes first, and the underscores behind it are ignored. -/
def readWord (source : List Char) : Except WordError UInt32 :=
  let text := Text.trim source
  let (base, digits) := Text.splitBase text
  match Text.readUInt32 base (digits.filter (· ≠ '_')) with
  | .ok n => .ok n
  | .error cause => .error ⟨String.ofList text, cause⟩

/-- A contiguous range of addresses. -/
structure Zone where
  /-- The first address. -/
  start : Addr
  /-- The number of addresses. -/
  size : UInt32
  deriving DecidableEq, Repr

namespace Zone

/-- The address behind the last one, which may be `addressCount` or more. -/
def stop (z : Zone) : Nat :=
  z.start.toNat + z.size.toNat

/-- Whether the `len` addresses from `addr` on lie in the zone.  An empty range
may lie at the zone's end. -/
def covers (z : Zone) (addr : Addr) (len : UInt32) : Bool :=
  z.start ≤ addr && addr.toNat + len.toNat ≤ z.stop

/-- Whether each zone starts before the other one stops. -/
def meets (a b : Zone) : Bool :=
  a.start.toNat < b.stop && b.start.toNat < a.stop

/-- The smallest zone of whole units of `unit` addresses that covers this one.
It stops at the end of the address space, and a size that has no 32-bit value
is replaced by the largest one. -/
def widened (z : Zone) (unit : Nat) : Zone :=
  let start := z.start.toNat / unit * unit
  let stop := min ((z.stop + unit - 1) / unit * unit) addressCount
  ⟨UInt32.ofNat start, UInt32.ofNat (min (stop - start) (addressCount - 1))⟩

/-- The written form: an address of eight digits, and the size without leading
zeros. -/
def text (z : Zone) : String :=
  Text.hexAddr z.start ++ ":0x" ++ String.ofList (Text.hexDigits z.size.toNat)

end Zone

/-- Why a text is not a zone. -/
inductive ZoneError
  /-- There is no colon. -/
  | missingColon (text : String)
  /-- The part before the colon is not a number. -/
  | start (text : String) (cause : WordError)
  /-- The part behind the colon is not a number. -/
  | size (text : String) (cause : WordError)
  deriving DecidableEq, Repr

/-- The wording of each cause. -/
def ZoneError.message : ZoneError → String
  | .missingColon text => s!"expected ADDR:SIZE, found `{text}`"
  | .start text cause => s!"invalid zone start in `{text}`: {cause.message}"
  | .size text cause => s!"invalid zone size in `{text}`: {cause.message}"

/-- Reads the written form of a zone. -/
def readZone (source : List Char) : Except ZoneError Zone :=
  match Text.splitFirst? ':' source with
  | none => .error (.missingColon (String.ofList source))
  | some (front, back) =>
    match readWord front with
    | .error cause => .error (.start (String.ofList source) cause)
    | .ok start =>
      match readWord back with
      | .error cause => .error (.size (String.ofList source) cause)
      | .ok size => .ok ⟨start, size⟩

/-- The zone that the directory slot of `invalidAddr` covers.  Nothing in it may
ever be accessed. -/
abbrev guardZone : Zone :=
  ⟨0xfff80000, 0x80000⟩

end RegionGuard
