import RegionGuard.Heap.Allocator
import RegionGuard.Proofs.Heap.Memory

/-!
# Copies of ranges that overlap

A copy can be made in three ways: through a buffer that takes all bytes before the first
one is stored, byte by byte in place, or as the heap does it, which moves the bytes that
are not zero.  In place the direction matters.  A byte must not be replaced before it has
been copied, so bytes that move to lower places are taken in ascending order and bytes
that move to higher places in descending order.

All three leave the same bytes, whichever way the ranges overlap and however long they
are.  For a heap this includes the answers: a range that is not backed by memory is
refused with the same error, the source before the target, and nothing is changed.
-/

namespace RegionGuard

namespace Bytes

/-- The byte that a copy leaves at a place: in the target range the one that was as far
behind the source, and elsewhere the one that was there. -/
def copied (m : Bytes) (place target count other : Nat) : UInt8 :=
  if target ≤ other ∧ other < target + count then m.get (place + (other - target))
  else m.get other

/-- Copies in place, the first byte first. -/
def slideDown (m : Bytes) (place target : Nat) : (count : Nat) → Bytes
  | 0 => m
  | count + 1 => (m.set target (m.get place)).slideDown (place + 1) (target + 1) count

/-- Copies in place, the last byte first. -/
def slideUp (m : Bytes) (place target : Nat) : (count : Nat) → Bytes
  | 0 => m
  | count + 1 => (m.set (target + count) (m.get (place + count))).slideUp place target count

/-- Copies in place, in the direction in which no byte is replaced before it is copied. -/
def slide (m : Bytes) (place target count : Nat) : Bytes :=
  if target ≤ place then m.slideDown place target count else m.slideUp place target count

/-- Towards lower places the first byte goes first: what it replaces has been copied or is none
of the source. -/
theorem get_slideDown {place target : Nat} (h : target ≤ place) (m : Bytes) (count other : Nat) :
    (m.slideDown place target count).get other = m.copied place target count other := by
  induction count generalizing m place target with
  | zero => rw [slideDown, copied, if_neg (by omega)]
  | succ count ih =>
      -- the byte that has been replaced lies before those still to be copied
      rw [slideDown, ih (Nat.succ_le_succ h), copied, copied]
      by_cases hlater : target + 1 ≤ other ∧ other < target + 1 + count
      · rw [if_pos hlater, if_pos (by omega), get_set, if_neg (by omega)]
        congr 1
        omega
      · rw [if_neg hlater, get_set]
        by_cases hfirst : target = other
        · rw [if_pos hfirst, if_pos (by omega), hfirst, Nat.sub_self, Nat.add_zero]
        · rw [if_neg hfirst, if_neg (by omega)]

/-- Towards higher places the last byte goes first, for the same reason. -/
theorem get_slideUp {place target : Nat} (h : place ≤ target) (m : Bytes) (count other : Nat) :
    (m.slideUp place target count).get other = m.copied place target count other := by
  induction count generalizing m with
  | zero => rw [slideUp, copied, if_neg (by omega)]
  | succ count ih =>
      -- the byte that has been replaced lies behind those still to be copied
      rw [slideUp, ih, copied, copied]
      by_cases hlater : target ≤ other ∧ other < target + count
      · rw [if_pos hlater, if_pos (by omega), get_set, if_neg (by omega)]
      · rw [if_neg hlater, get_set]
        by_cases hlast : target + count = other
        · rw [if_pos hlast, if_pos (by omega)]
          congr 1
          omega
        · rw [if_neg hlast, if_neg (by omega)]

/-- In place, each byte of the target becomes the old byte of the source, however the ranges
overlap. -/
theorem get_slide (m : Bytes) (place target count other : Nat) :
    (m.slide place target count).get other = m.copied place target count other := by
  unfold slide
  split
  · next hdown => exact get_slideDown hdown m count other
  · next hup => exact get_slideUp (Nat.le_of_not_le hup) m count other

/-- A copy of the bytes that are not zero leaves the same. -/
theorem get_copy (m : Bytes) (place target count other : Nat) :
    (m.copy place target count).get other = m.copied place target count other := by
  unfold copied
  split
  · next hinside =>
      have harrives : (m.copy place target count).get (target + (other - target)) =
          m.get (place + (other - target)) := get_copy_of_inside (by omega)
      rwa [Nat.add_sub_cancel' hinside.1] at harrives
  · exact get_copy_of_outside (by omega)

/-- So does a copy through a buffer. -/
theorem get_write_read_of_target (m : Bytes) (place target count other : Nat) :
    (m.write target (m.read place count)).get other = m.copied place target count other := by
  unfold copied
  split
  · next hinside =>
      rw [get_write, if_pos hinside.1, getElem?_read (by omega), Option.getD_some]
  · exact get_write_of_outside (by rw [length_read]; omega)

end Bytes

namespace Heap

/-- The memory as a sequence: the bytes of the zone, in order. -/
def data (heap : Heap) : List UInt8 :=
  heap.bytes.read heap.zone.start.toNat heap.zone.size.toNat

/-- Where the byte of an address is in this sequence, by arithmetic of 32 bits. -/
def index (heap : Heap) (addr : Addr) : Nat :=
  (addr - heap.zone.start).toNat

/-- The heap differs from the one before by a copy. -/
structure Copies (heap after : Heap) (source target : Addr) (size : UInt32) : Prop where
  zone_eq : after.zone = heap.zone
  free_eq : after.free = heap.free
  live_eq : after.live = heap.live
  /-- Each byte of the source is at its place in the target, as it was before. -/
  moved : ∀ i < size.toNat,
    after.bytes.get (target.toNat + i) = heap.bytes.get (source.toNat + i)
  /-- All others are unchanged. -/
  kept : ∀ place, place < target.toNat ∨ target.toNat + size.toNat ≤ place →
    after.bytes.get place = heap.bytes.get place
  /-- The same has been reached byte by byte, without a buffer. -/
  in_place : ∀ place, after.bytes.get place =
    (heap.bytes.slide source.toNat target.toNat size.toNat).get place
  /-- In the sequence, the part at the index of the target is replaced by the one at the
  index of the source. -/
  data_eq : after.data =
    heap.data.take (heap.index target) ++
      (heap.data.drop (heap.index source)).take size.toNat ++
        heap.data.drop (heap.index target + size.toNat)

/-- What a copy answers and does, made in place and through a buffer. -/
structure CopiesAlike (heap : Heap) (source target : Addr) (size : UInt32) : Prop where
  /-- A range can be copied if it starts in the zone and does not run past its end. -/
  mapped_iff : ∀ addr, heap.mapped addr size = .ok () ↔
    (heap.zone.start.toNat ≤ addr.toNat ∧ addr.toNat < heap.zone.stop) ∧
      addr.toNat + size.toNat ≤ heap.zone.stop
  /-- There is one error for a range that starts elsewhere. -/
  notMapped_iff : ∀ addr, heap.mapped addr size = .error .notMapped ↔
    ¬ (heap.zone.start.toNat ≤ addr.toNat ∧ addr.toNat < heap.zone.stop)
  /-- There is another one for a range that only runs past the end. -/
  pastEnd_iff : ∀ addr, heap.mapped addr size = .error .pastEnd ↔
    (heap.zone.start.toNat ≤ addr.toNat ∧ addr.toNat < heap.zone.stop) ∧
      heap.zone.stop < addr.toNat + size.toNat
  /-- The indices of such a range are those of bytes of the zone, and none has wrapped. -/
  index_exact : ∀ addr, heap.mapped addr size = .ok () →
    heap.zone.start.toNat + heap.index addr = addr.toNat ∧
      heap.index addr + size.toNat ≤ heap.data.length
  /-- The error of the source is the answer, and nothing is changed. -/
  source_error : ∀ e, heap.mapped source size = .error e →
    heap.copy source target size = (.error e, heap) ∧
      Segment.copyBuffered heap source target size = (.error e, heap)
  /-- If the source has none, then that of the target. -/
  target_error : ∀ e, heap.mapped source size = .ok () → heap.mapped target size = .error e →
    heap.copy source target size = (.error e, heap) ∧
      Segment.copyBuffered heap source target size = (.error e, heap)
  /-- If neither has one, both copies are made, and they leave the same bytes. -/
  copies : heap.mapped source size = .ok () → heap.mapped target size = .ok () →
    ∃ after buffered, heap.copy source target size = (.ok (), after) ∧
      Segment.copyBuffered heap source target size = (.ok (), buffered) ∧
      heap.Copies after source target size ∧ heap.Copies buffered source target size ∧
      (∀ place, buffered.bytes.get place = after.bytes.get place) ∧
      buffered.data = after.data

variable {heap : Heap} {source target addr : Addr} {size : UInt32}

/-- The index of a range that is backed by memory does not wrap, and the range ends within the
zone. -/
theorem index_of_mapped (h : heap.mapped addr size = .ok ()) :
    heap.zone.start.toNat + heap.index addr = addr.toNat ∧
      heap.index addr + size.toNat ≤ heap.zone.size.toNat := by
  obtain ⟨⟨hfrom, -⟩, hto⟩ := (heap.mapped_eq_ok_iff addr size).mp h
  have hstop : heap.zone.stop = heap.zone.start.toNat + heap.zone.size.toNat := rfl
  have hindex : heap.index addr = addr.toNat - heap.zone.start.toNat :=
    UInt32.toNat_sub_of_le _ _ (UInt32.le_iff_toNat_le.mpr hfrom)
  omega

theorem length_data (heap : Heap) : heap.data.length = heap.zone.size.toNat :=
  Bytes.length_read _ _ _

/-- A byte of the sequence is the one at the address with its index. -/
theorem getElem?_data (heap : Heap) {k : Nat} (h : k < heap.zone.size.toNat) :
    heap.data[k]? = some (heap.bytes.get (heap.zone.start.toNat + k)) :=
  Bytes.getElem?_read h

/-- Bytes that a copy leaves, put in terms of the sequence. -/
theorem data_of_copied {bytes : Bytes} (hsource : heap.mapped source size = .ok ())
    (htarget : heap.mapped target size = .ok ())
    (h : ∀ place, bytes.get place =
      heap.bytes.copied source.toNat target.toNat size.toNat place) :
    data { heap with bytes := bytes } =
      heap.data.take (heap.index target) ++
        (heap.data.drop (heap.index source)).take size.toNat ++
          heap.data.drop (heap.index target + size.toNat) := by
  obtain ⟨hfrom, hfits⟩ := index_of_mapped hsource
  obtain ⟨hto, hroom⟩ := index_of_mapped htarget
  have hlength := heap.length_data
  have hfront : (heap.data.take (heap.index target)).length = heap.index target := by
    rw [List.length_take]
    omega
  have hmiddle : ((heap.data.drop (heap.index source)).take size.toNat).length = size.toNat := by
    rw [List.length_take, List.length_drop]
    omega
  refine List.ext_getElem? fun k => ?_
  rcases Nat.lt_or_ge k heap.zone.size.toNat with hk | hk
  · have hbyte : (data { heap with bytes := bytes })[k]? =
        some (bytes.get (heap.zone.start.toNat + k)) := getElem?_data _ hk
    rw [hbyte, h, Bytes.copied, List.append_assoc]
    rcases Nat.lt_or_ge k (heap.index target) with hbefore | hbehind
    · rw [if_neg (by omega), List.getElem?_append_left (by omega), List.getElem?_take_of_lt hbefore,
        heap.getElem?_data hk]
    · rw [List.getElem?_append_right (by omega), hfront]
      rcases Nat.lt_or_ge k (heap.index target + size.toNat) with hinside | hafter
      · rw [if_pos (by omega), List.getElem?_append_left (by omega),
          List.getElem?_take_of_lt (by omega), List.getElem?_drop, heap.getElem?_data (by omega)]
        congr 2
        omega
      · rw [if_neg (by omega), List.getElem?_append_right (by omega), hmiddle, List.getElem?_drop,
          heap.getElem?_data (by omega)]
        congr 2
        omega
  · rw [List.getElem?_eq_none, List.getElem?_eq_none]
    · rw [List.length_append, List.length_append, hfront, hmiddle, List.length_drop]
      omega
    · rw [length_data]
      exact hk

/-- Whatever leaves the bytes of a copy has made one. -/
theorem copies_of_copied {bytes : Bytes} (hsource : heap.mapped source size = .ok ())
    (htarget : heap.mapped target size = .ok ())
    (h : ∀ place, bytes.get place =
      heap.bytes.copied source.toNat target.toNat size.toNat place) :
    heap.Copies { heap with bytes := bytes } source target size where
  zone_eq := rfl
  free_eq := rfl
  live_eq := rfl
  moved i hi := by
    rw [h, Bytes.copied, if_pos (by omega), Nat.add_sub_cancel_left]
  kept place hplace := by
    rw [h, Bytes.copied, if_neg (by omega)]
  in_place place := by rw [h, Bytes.get_slide]
  data_eq := data_of_copied hsource htarget h

/-- With a source that can be read, the buffered copy is a write. -/
theorem copyBuffered_of_mapped (h : heap.mapped source size = .ok ()) :
    Segment.copyBuffered heap source target size =
      match heap.mapped target size with
      | .error e => (.error e, heap)
      | .ok () => (.ok (), { heap with
          bytes := heap.bytes.write target.toNat (heap.bytes.read source.toNat size.toNat) }) := by
  have hread : Segment.read heap source size =
      .ok (heap.bytes.read source.toNat size.toNat) := by
    show heap.read source size = _
    rw [read, h]
  rw [Segment.copyBuffered, hread]
  exact heap.write_eq_mapped target (Bytes.length_read _ _ _)

/-- Every copy of every heap. -/
theorem copiesAlike (heap : Heap) (source target : Addr) (size : UInt32) :
    heap.CopiesAlike source target size where
  mapped_iff addr := heap.mapped_eq_ok_iff addr size
  notMapped_iff addr := heap.mapped_eq_notMapped_iff addr size
  pastEnd_iff addr := heap.mapped_eq_pastEnd_iff addr size
  index_exact addr hmapped := by
    rw [length_data]
    exact index_of_mapped hmapped
  source_error e hsource := by
    have hread : Segment.read heap source size = .error e := by
      show heap.read source size = _
      rw [read, hsource]
    constructor
    · unfold copy
      rw [hsource]
    · rw [Segment.copyBuffered, hread]
  target_error e hsource htarget := by
    constructor
    · unfold copy
      rw [hsource, htarget]
    · rw [copyBuffered_of_mapped hsource, htarget]
  copies hsource htarget := by
    have hcopy := copies_of_copied hsource htarget
      (heap.bytes.get_copy source.toNat target.toNat size.toNat)
    have hbuffered := copies_of_copied hsource htarget
      (heap.bytes.get_write_read_of_target source.toNat target.toNat size.toNat)
    refine ⟨_, _, ?_, ?_, hcopy, hbuffered, fun place => ?_, ?_⟩
    · unfold copy
      rw [hsource, htarget]
    · rw [copyBuffered_of_mapped hsource, htarget]
    · rw [hbuffered.in_place, ← hcopy.in_place]
    · rw [hbuffered.data_eq, ← hcopy.data_eq]

/-- The target starts inside the source. -/
example : (((fresh ⟨0x1000, 0x100⟩).write 0x1000 [1, 2, 3, 4]).2.copy 0x1000 0x1002 4).2.read
    0x1000 6 = .ok [1, 2, 1, 2, 3, 4] := by cbv

end Heap

end RegionGuard
