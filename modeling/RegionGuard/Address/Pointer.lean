import RegionGuard.Address.Slot
import RegionGuard.Text.Hex

/-!
# Pointers

Arithmetic that leaves a region has the result `Pointer.invalid`.  Where only a
plain address can be stored, one reserved address stands for that result.
-/

namespace RegionGuard

/-- The address that stands for an invalid pointer. -/
abbrev invalidAddr : Addr := 0xfffffffe

/-- The result of guarded pointer arithmetic. -/
inductive Pointer
  /-- A pointer to an address. -/
  | valid (addr : Addr)
  /-- A pointer that has left its region, for good. -/
  | invalid
  deriving DecidableEq, Repr

namespace Pointer

/-- Reads a plain address, in which `invalidAddr` stands for `invalid`. -/
def ofAddr (addr : Addr) : Pointer :=
  if addr = invalidAddr then invalid else valid addr

/-- Writes a pointer as a plain address. -/
def toAddr : Pointer → Addr
  | valid addr => addr
  | invalid => invalidAddr

/-- Whether the pointer has an address. -/
def isValid : Pointer → Bool
  | valid _ => true
  | invalid => false

/-- How a pointer is shown. -/
def text : Pointer → String
  | valid addr => Text.hexAddr addr
  | invalid => "<invalid>"

@[simp] theorem toAddr_ofAddr (addr : Addr) : (ofAddr addr).toAddr = addr := by
  unfold ofAddr
  split <;> simp_all [toAddr]

/-- What is read from a plain address is never a valid pointer to the reserved one. -/
theorem ofAddr_ne_valid (addr : Addr) : ofAddr addr ≠ valid invalidAddr := by
  intro heq
  unfold ofAddr at heq
  split at heq
  · cases heq
  · rename_i hne
    exact hne (valid.inj heq)

/-- Any other pointer is read back from its plain address. -/
theorem ofAddr_toAddr {ptr : Pointer} (h : ptr ≠ valid invalidAddr) : ofAddr ptr.toAddr = ptr := by
  cases ptr with
  | invalid => rfl
  | valid addr =>
      have hne : addr ≠ invalidAddr := fun heq => h (congrArg valid heq)
      exact if_neg hne

end Pointer

end RegionGuard
