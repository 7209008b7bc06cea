import Std.Data.TreeMap

/-!
# Bytes of memory

Memory starts out as zeros, and only the bytes that differ from zero are kept.
Places are unbounded numbers, so that a range never wraps around; whether a
range may be touched at all is for the owner of the memory to check.
-/

namespace RegionGuard

/-- Memory in which almost every byte is zero. -/
structure Bytes where
  /-- The bytes that are not zero. -/
  nonzero : Std.TreeMap Nat UInt8

namespace Bytes

/-- Memory of zeros. -/
def zeros : Bytes := ⟨∅⟩

/-- The byte at a place. -/
def get (m : Bytes) (place : Nat) : UInt8 :=
  m.nonzero[place]?.getD 0

/-- Changes the byte at a place. -/
def set (m : Bytes) (place : Nat) (byte : UInt8) : Bytes :=
  ⟨if byte = 0 then m.nonzero.erase place else m.nonzero.insert place byte⟩

/-- The bytes of a range, in order. -/
def read (m : Bytes) (place : Nat) : (count : Nat) → List UInt8
  | 0 => []
  | count + 1 => m.get place :: read m (place + 1) count

/-- Stores bytes from a place on, in order. -/
def write (m : Bytes) (place : Nat) : List UInt8 → Bytes
  | [] => m
  | byte :: bytes => write (m.set place byte) (place + 1) bytes

/-- Makes every byte of a range zero. -/
def clear (m : Bytes) (place count : Nat) : Bytes :=
  ⟨m.nonzero.filter fun p _ => !(place ≤ p && p < place + count)⟩

/-- The bytes of a range that are not zero, moved to where the range's copy
from `place` to `target` puts them. -/
def shifted (m : Bytes) (place target count : Nat) : List (Nat × UInt8) :=
  m.nonzero.toList.filterMap fun (p, byte) =>
    if place ≤ p ∧ p < place + count then some (p - place + target, byte) else none

/-- Copies a range to another place.  The bytes are taken before the first one is
stored, so the ranges may overlap. -/
def copy (m : Bytes) (place target count : Nat) : Bytes :=
  let moved := m.shifted place target count
  moved.foldl (fun m (p, byte) => m.set p byte) (m.clear target count)

theorem get_zeros (place : Nat) : zeros.get place = 0 := by
  simp [zeros, get]

/-- A byte reads back as it was stored, and no other byte changes. -/
theorem get_set (m : Bytes) (place other : Nat) (byte : UInt8) :
    (m.set place byte).get other = if place = other then byte else m.get other := by
  unfold set get
  by_cases hb : byte = 0 <;> by_cases hp : place = other <;>
    simp [hb, hp, Std.TreeMap.getElem?_erase, Std.TreeMap.getElem?_insert]

/-- Clearing makes the bytes of the range zero and keeps the others. -/
theorem get_clear (m : Bytes) (place count other : Nat) :
    (m.clear place count).get other =
      if place ≤ other ∧ other < place + count then 0 else m.get other := by
  unfold clear get
  by_cases h : place ≤ other ∧ other < place + count
  · simp [h, Std.TreeMap.getElem?_filter]
  · have hkeep : (!decide (place ≤ other) || !decide (other < place + count)) = true := by
      by_cases hp : place ≤ other <;> simp_all
    cases hm : m.nonzero[other]? <;> simp [h, hm, hkeep, Std.TreeMap.getElem?_filter, Option.filter]

/-- Writing stores the bytes in order and keeps those before and behind them. -/
theorem get_write (m : Bytes) (place other : Nat) (bytes : List UInt8) :
    (m.write place bytes).get other =
      if place ≤ other then bytes[other - place]?.getD (m.get other) else m.get other := by
  induction bytes generalizing m place with
  | nil => simp [write]
  | cons byte bytes ih =>
    rw [write, ih, get_set]
    by_cases h : place = other
    · subst h
      rw [if_neg (Nat.not_succ_le_self place), if_pos rfl, if_pos (Nat.le_refl place)]
      simp
    · by_cases hle : place + 1 ≤ other
      · obtain ⟨k, rfl⟩ : ∃ k, other = place + 1 + k := ⟨other - (place + 1), by omega⟩
        have hk : place + 1 + k - place = k + 1 := by omega
        simp [h, hk, show place ≤ place + 1 + k by omega]
      · rw [if_neg hle, if_neg h, if_neg (by omega)]

end Bytes

end RegionGuard
