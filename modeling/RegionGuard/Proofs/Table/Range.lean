import RegionGuard.Table.Span
import Mathlib.Data.Fintype.Card

/-!
# Entries of a range of blocks

The two loops over consecutive blocks work page by page.  What they do to the
entries does not show the pages: a range of blocks is changed as if each block
had been visited on its own, and no other block is.

Neither loop can fail.  Every page of the pool has a slot that owns it, so there
are never more pages than slots, and far fewer than identifiers.
-/

namespace RegionGuard

/-- The blocks from one number up to, and without, another, in ascending order. -/
def Slot.range (block stop : Nat) : List Slot :=
  (List.range' block (stop - block)).map Slot.ofBlock

/-- A range has the blocks whose numbers are in it. -/
theorem Slot.mem_range_iff {block stop : Nat} (hstop : stop ≤ blockCount) (s : Slot) :
    s ∈ Slot.range block stop ↔ block ≤ s.number ∧ s.number < stop := by
  rw [Slot.range, List.mem_map]
  constructor
  · intro ⟨number, hnumber, hs⟩
    rw [List.mem_range'_1] at hnumber
    rw [← hs, Slot.number_ofBlock (by omega)]
    omega
  · intro hrange
    refine ⟨s.number, ?_, Slot.ofBlock_number s⟩
    rw [List.mem_range'_1]
    omega

namespace Directory

/-- There are as many pages as slots that own one. -/
theorem size_pages_eq (dir : Directory) :
    dir.pages.size = (Finset.univ.filter fun d => dir.isOwned d = true).card := by
  have hslot : ∀ i : Fin dir.pages.size, ∃ d : Fin directorySlots,
      dir.slots[d] = .owned ⟨i⟩ := fun i => dir.owned_surj i i.isLt
  choose slotOf hslotOf using hslot
  have hinj : Function.Injective slotOf := by
    intro i j hij
    have h := hslotOf i
    rw [hij, hslotOf j] at h
    exact Fin.ext (congrArg PageId.index (Backing.owned.inj h)).symm
  have himage : Finset.univ.image slotOf = Finset.univ.filter fun d => dir.isOwned d = true := by
    ext d
    simp only [Finset.mem_image, Finset.mem_univ, true_and, Finset.mem_filter]
    constructor
    · intro hexists
      obtain ⟨i, hi⟩ := hexists
      rw [isOwned, ← hi, hslotOf]
      rfl
    · intro howned
      cases hd : dir.slots[d] with
      | owned id =>
          have hlt := dir.owned_lt d id hd
          exact ⟨⟨id.index, hlt⟩, dir.owned_inj _ _ id (hslotOf ⟨id.index, hlt⟩) hd⟩
      | untracked | forbidden => simp [isOwned, hd, Backing.isOwned] at howned
  rw [← himage, Finset.card_image_of_injective _ hinj, Finset.card_univ, Fintype.card_fin]

/-- There are no more pages than directory slots. -/
theorem size_pages_le (dir : Directory) : dir.pages.size ≤ directorySlots := by
  rw [size_pages_eq]
  exact (Finset.card_le_univ _).trans (Fintype.card_fin directorySlots).le

/-- So identifiers of pages never run out. -/
theorem size_pages_lt_idLimit (dir : Directory) : dir.pages.size < idLimit :=
  Nat.lt_of_le_of_lt dir.size_pages_le (by decide)

/-- A slot can always be given a page of its own. -/
theorem exists_own (dir : Directory) (d : Fin directorySlots) :
    ∃ id, dir.own d = (some id, (dir.own d).2) := by
  have hroom := dir.size_pages_lt_idLimit
  unfold own
  split
  · exact ⟨_, rfl⟩
  all_goals simp [hroom]

/-- Afterwards this slot has a page of its own, and otherwise only those that had
one before. -/
theorem isOwned_own (dir : Directory) (d e : Fin directorySlots) :
    (dir.own d).2.isOwned e = (decide (d = e) || dir.isOwned e) := by
  have hroom := dir.size_pages_lt_idLimit
  have hpromote : ∀ shared : dir.slots[d].isOwned = false,
      (dir.promote d shared).isOwned e = (decide (d = e) || dir.isOwned e) := by
    intro shared
    show (dir.slots.set d _)[e.val].isOwned = _
    rw [Vector.getElem_set]
    by_cases hd : d = e
    · simp [hd, Backing.isOwned]
    · have hne : ¬ d.val = e.val := fun h => hd (Fin.ext h)
      simp only [if_neg hne, hd, decide_false, Bool.false_or]
      rfl
  unfold own
  split
  · rename_i id hid
    by_cases hd : d = e
    · subst hd
      simp [isOwned, hid, Backing.isOwned]
    · simp [hd]
  all_goals simp only [hroom, if_true, hpromote]

@[simp] theorem isOwned_modifyPage (dir : Directory) (d e : Fin directorySlots)
    (change : Page → Page) : (dir.modifyPage d change).isOwned e = dir.isOwned e := by
  simp [isOwned]

/-- Changing a range of one page changes the entries of that range, if the slot
owns the page. -/
theorem entry_modifyPage_range (dir : Directory) (d : Fin directorySlots)
    (start count : Nat) (change : Entry → Entry) (s : Slot) :
    (dir.modifyPage d fun page => page.modifyRange start change count).entry s =
      if (s.dir = d ∧ start ≤ s.index ∧ s.index < start + count) ∧ dir.isOwned s.dir = true then
        change (dir.entry s)
      else dir.entry s := by
  cases hd : dir.slots[d] with
  | owned id =>
      obtain ⟨page, hp⟩ := exists_page hd
      rw [entry_modifyPage_of_owned _ hd hp, Page.entry_modifyRange]
      by_cases hs : s.dir = d
      · have howned : dir.isOwned s.dir = true := by simp [isOwned, hs, hd, Backing.isOwned]
        have hentry : dir.entry s = page.entry s.index :=
          entry_of_owned (by simpa only [hs] using hd) hp
        simp only [hs, hentry, true_and, if_true]
        rw [hs] at howned
        simp only [howned, and_true]
      · simp [hs]
  | untracked | forbidden =>
      have shared : dir.slots[d].isOwned = false := by rw [hd]; rfl
      rw [modifyPage_of_shared _ shared]
      by_cases hs : s.dir = d
      · rw [if_neg]
        simp only [isOwned, hs, shared]
        simp
      · simp [hs]

/-! ## The loop that changes a range -/

/-- Induction along the parts of a range, each on a page of its own: what holds behind a
part holds before it. -/
theorem range_induction (stop : Nat) {motive : Nat → Prop}
    (step : ∀ block, block < stop → motive (block + runLength block stop) → motive block)
    (done : ∀ block, stop ≤ block → motive block) (block : Nat) : motive block := by
  induction hn : stop - block using Nat.strongRecOn generalizing block with
  | ind n ih =>
      rcases Nat.lt_or_ge block stop with h | h
      · have hpos := runLength_pos h
        exact step block h (ih _ (by omega) _ rfl)
      · exact done block h

/-- The directory in which a slot's page is about to be changed. -/
def readied (dir : Directory) (promote : Bool) (d : Fin directorySlots) : Directory :=
  if promote then (dir.own d).2 else dir

/-- Readying a slot shows in no entry, because a new page is a copy. -/
theorem entry_readied (dir : Directory) (promote : Bool) (d : Fin directorySlots) (s : Slot) :
    (dir.readied promote d).entry s = dir.entry s := by
  unfold readied
  split
  · exact entry_own dir d s
  · rfl

/-- With `promote` the slot owns its page afterwards, and no other slot has changed. -/
theorem isOwned_readied (dir : Directory) (promote : Bool) (d e : Fin directorySlots) :
    (dir.readied promote d).isOwned e = (promote && decide (d = e) || dir.isOwned e) := by
  cases promote with
  | false => simp [readied]
  | true => simp [readied, isOwned_own]

/-- One round of the loop: the slot of the first part is readied, the part is changed, and
the loop goes on with the others. -/
theorem modifyStretches_cons (dir : Directory) (promote : Bool) (change : Entry → Entry)
    (r : Stretch) (rest : List Stretch) :
    dir.modifyStretches promote change (r :: rest) =
      ((dir.readied promote r.slot).modifyPage r.slot
        fun page => page.modifyRange r.index change r.length).modifyStretches
          promote change rest := by
  rw [modifyStretches]
  cases promote with
  | false => simp [readied]
  | true =>
      obtain ⟨id, hid⟩ := dir.exists_own r.slot
      simp only [if_true, readied]
      rw [hid]
      simp

/-- A range that is not empty is its part on the page of its first block, and the range
behind that part. -/
theorem stretches_of_lt {block stop : Nat} (h : block < stop) :
    stretches block stop = ⟨block / blocksPerPage, block % blocksPerPage, runLength block stop⟩ ::
      stretches (block + runLength block stop) stop := by
  rw [stretches, dif_pos h]

/-- An empty range has no parts. -/
theorem stretches_of_le {block stop : Nat} (h : stop ≤ block) : stretches block stop = [] := by
  rw [stretches, dif_neg (by omega)]

/-- The first round for a range, in terms of the slot of its first block. -/
theorem modifySpan_of_lt (dir : Directory) (promote : Bool) (change : Entry → Entry)
    {block stop : Nat} (h : block < stop) :
    dir.modifySpan promote change block stop =
      ((dir.readied promote (Slot.ofBlock block).dir).modifyPage (Slot.ofBlock block).dir
        fun page => page.modifyRange (Slot.ofBlock block).index change
          (runLength block stop)).modifySpan promote change (block + runLength block stop) stop := by
  rw [modifySpan, stretches_of_lt h, modifyStretches_cons]
  rfl

/-- Nothing is changed in an empty range. -/
theorem modifySpan_of_le (dir : Directory) (promote : Bool) (change : Entry → Entry)
    {block stop : Nat} (h : stop ≤ block) :
    dir.modifySpan promote change block stop = (true, dir) := by
  rw [modifySpan, stretches_of_le h, modifyStretches]

/-- The first part of a range, in terms of block numbers and of its page. -/
theorem mem_run_iff (block : Nat) {stop : Nat} (hstop : stop ≤ blockCount) (s : Slot) :
    (s.dir = (Slot.ofBlock block).dir ∧ (Slot.ofBlock block).index ≤ s.index.val ∧
        s.index.val < (Slot.ofBlock block).index + runLength block stop) ∧ block < stop ↔
      block ≤ s.number ∧ s.number < block + runLength block stop := by
  rcases s with ⟨⟨d, hd⟩, ⟨i, hi⟩⟩
  have hd' : d < 8192 := hd
  have hi' : i < 2048 := hi
  have hstop' : stop ≤ 16777216 := hstop
  show ((⟨d, hd⟩ : Fin directorySlots) = ⟨block / 2048 % 8192, _⟩ ∧ block % 2048 ≤ i ∧
      i < block % 2048 + min (2048 - block % 2048) (stop - block)) ∧ block < stop ↔
    block ≤ d * 2048 + i ∧ d * 2048 + i < block + min (2048 - block % 2048) (stop - block)
  rw [Fin.mk.injEq]
  omega

/-- No identifier is missing while parts of a range are changed. -/
theorem fst_modifyStretches (dir : Directory) (promote : Bool) (change : Entry → Entry)
    (parts : List Stretch) : (dir.modifyStretches promote change parts).1 = true := by
  induction parts generalizing dir with
  | nil => rfl
  | cons r rest ih =>
      rw [modifyStretches_cons]
      exact ih _

/-- Nor is one missing for a range. -/
theorem fst_modifySpan (dir : Directory) (promote : Bool) (change : Entry → Entry)
    (block stop : Nat) : (dir.modifySpan promote change block stop).1 = true :=
  dir.fst_modifyStretches promote change _

/-- Exactly the blocks of the range are changed; without `promote`, those on a
shared page are left out. -/
theorem entry_modifySpan (dir : Directory) (promote : Bool) (change : Entry → Entry)
    {block stop : Nat} (hstop : stop ≤ blockCount) (s : Slot) :
    (dir.modifySpan promote change block stop).2.entry s =
      if (block ≤ s.number ∧ s.number < stop) ∧ (promote || dir.isOwned s.dir) = true then
        change (dir.entry s)
      else dir.entry s := by
  induction block using range_induction stop generalizing dir with
  | step block h ih =>
      have hle : block + runLength block stop ≤ stop := by
        unfold runLength
        omega
      have hrun := mem_run_iff block hstop s
      rw [modifySpan_of_lt dir promote change h, ih, isOwned_modifyPage,
        isOwned_readied, entry_modifyPage_range, isOwned_readied, entry_readied]
      by_cases hfirst : block ≤ s.number ∧ s.number < block + runLength block stop
      · obtain ⟨hslot, -⟩ := hrun.mpr hfirst
        have hlater : ¬ (block + runLength block stop ≤ s.number ∧ s.number < stop) := by omega
        have hrange : block ≤ s.number ∧ s.number < stop := by omega
        rw [if_neg fun hl => hlater hl.1]
        simp only [hslot, hrange, and_self, true_and]
        cases promote <;> simp
      · have hslot : ¬ (s.dir = (Slot.ofBlock block).dir ∧ (Slot.ofBlock block).index ≤ s.index.val ∧
            s.index.val < (Slot.ofBlock block).index + runLength block stop) :=
          fun hs => hfirst (hrun.mp ⟨hs, h⟩)
        have hrange : block + runLength block stop ≤ s.number ∧ s.number < stop ↔
            block ≤ s.number ∧ s.number < stop := by omega
        simp only [hslot, hrange, false_and, if_false]
        cases promote <;> simp
  | done block h => rw [modifySpan_of_le dir promote change h, if_neg (by omega)]

/-- The slots that own their page afterwards: with `promote`, those of the range come
to the ones before. -/
theorem isOwned_modifySpan (dir : Directory) (promote : Bool) (change : Entry → Entry)
    {block stop : Nat} (hstop : stop ≤ blockCount) (d : Fin directorySlots) :
    (dir.modifySpan promote change block stop).2.isOwned d = true ↔
      dir.isOwned d = true ∨
        promote = true ∧ ∃ s : Slot, s.dir = d ∧ block ≤ s.number ∧ s.number < stop := by
  induction block using range_induction stop generalizing dir with
  | step block h ih =>
      have hpos := runLength_pos h
      have hblock : (Slot.ofBlock block).number = block := Slot.number_ofBlock (by omega)
      -- the slot of the first round is in the range, and the rest of its range is the next one's
      have hsplit : ((Slot.ofBlock block).dir = d ∨ ∃ s : Slot, s.dir = d ∧
            block + runLength block stop ≤ s.number ∧ s.number < stop) ↔
          ∃ s : Slot, s.dir = d ∧ block ≤ s.number ∧ s.number < stop := by
        constructor
        · rintro (hd | ⟨s, hd, hfrom, hto⟩)
          · exact ⟨Slot.ofBlock block, hd, by omega, by omega⟩
          · exact ⟨s, hd, by omega, hto⟩
        · intro ⟨s, hd, hfrom, hto⟩
          by_cases hfirst : s.number < block + runLength block stop
          · obtain ⟨⟨hsame, -⟩, -⟩ := (mem_run_iff block hstop s).mpr ⟨hfrom, hfirst⟩
            exact .inl (hsame.symm.trans hd)
          · exact .inr ⟨s, hd, by omega, hto⟩
      rw [modifySpan_of_lt dir promote change h, ih, isOwned_modifyPage, isOwned_readied, ← hsplit]
      cases promote with
      | false => simp
      | true =>
          simp only [Bool.true_and, Bool.or_eq_true, decide_eq_true_eq, true_and]
          rw [or_assoc, or_left_comm]
  | done block h =>
      rw [modifySpan_of_le dir promote change h]
      constructor
      · intro howned
        exact .inl howned
      · rintro (howned | ⟨-, s, -, hfrom, hto⟩)
        · exact howned
        · omega

/-- Giving every block of a range to one region needs no room. -/
theorem entry_modifySpan_hold (dir : Directory) (bounds : Bounds) {block stop : Nat}
    (hstop : stop ≤ blockCount) (s : Slot) :
    (dir.modifySpan true (Entry.hold bounds) block stop).2.entry s =
      if block ≤ s.number ∧ s.number < stop then (dir.entry s).hold bounds else dir.entry s := by
  simp [entry_modifySpan _ _ _ hstop]

/-- Blocks on a shared page hold no region, so leaving them out when a range is
emptied makes no difference. -/
theorem entry_modifySpan_vacate (dir : Directory) {block stop : Nat}
    (hstop : stop ≤ blockCount) (s : Slot) :
    (dir.modifySpan false Entry.vacate block stop).2.entry s =
      if block ≤ s.number ∧ s.number < stop then (dir.entry s).vacate else dir.entry s := by
  rw [entry_modifySpan _ _ _ hstop, Bool.false_or]
  by_cases howned : dir.isOwned s.dir = true
  · simp [howned]
  · have shared : dir.slots[s.dir].isOwned = false := Bool.eq_false_iff.mpr howned
    have hsame : (dir.entry s).vacate = dir.entry s := by
      rw [entry_of_shared shared]
      cases dir.slots[s.dir] <;> rfl
    rw [if_neg fun h => howned h.2, hsame, ite_self]

/-! ## The loop that makes a range forbidden -/

/-- The blocks of a slot whose first block is given. -/
theorem mem_page_iff (first s : Slot) (hfirst : first.index.val = 0) :
    first.dir = s.dir ↔ first.number ≤ s.number ∧ s.number < first.number + blocksPerPage := by
  have hi : s.index.val < 2048 := s.index.isLt
  rw [Fin.ext_iff]
  show first.dir.val = s.dir.val ↔
    first.dir.val * 2048 + first.index.val ≤ s.dir.val * 2048 + s.index.val ∧
      s.dir.val * 2048 + s.index.val < first.dir.val * 2048 + first.index.val + 2048
  omega

/-- Blocks of a range become forbidden, all others stay as they were, and no
identifier is missing.  The short cut over a whole slot is no exception: its
blocks are those of the range that the slot has. -/
theorem entry_forbidSpan (dir : Directory) (block : Nat) {stop : Nat} (hstop : stop ≤ blockCount) :
    (dir.forbidSpan block stop).1 = true ∧
    ∀ s, (dir.forbidSpan block stop).2.entry s =
      if block ≤ s.number ∧ s.number < stop then Entry.forbidden else dir.entry s := by
  induction hn : stop - block using Nat.strongRecOn generalizing dir block with
  | ind n ih =>
      rcases Nat.lt_or_ge block stop with h | h
      · have hblock : (Slot.ofBlock block).number = block := Slot.number_ofBlock (by omega)
        rw [forbidSpan, dif_pos h]
        dsimp only
        split
        · rename_i hwhole
          obtain ⟨hfirst, hfits, hshared⟩ := hwhole
          have hpage : 0 < blocksPerPage := by decide
          obtain ⟨hok, hentry⟩ := ih (stop - (block + blocksPerPage)) (by omega)
            (dir.forbid (Slot.ofBlock block).dir) _ rfl
          refine ⟨hok, fun s => ?_⟩
          have hslot := mem_page_iff (Slot.ofBlock block) s hfirst
          rw [hblock] at hslot
          rw [hentry, entry_forbid]
          by_cases hs : (Slot.ofBlock block).dir = s.dir
          · have hin := hslot.mp hs
            rw [if_neg (by omega), if_pos ⟨hs, hshared⟩, if_pos (by omega)]
          · have hout : ¬ (block ≤ s.number ∧ s.number < block + blocksPerPage) :=
              fun hin => hs (hslot.mpr hin)
            rw [if_neg (c := _ ∧ _) (fun hin => hs hin.1)]
            exact if_congr (by omega) rfl rfl
        · obtain ⟨id, hid⟩ := dir.exists_own (Slot.ofBlock block).dir
          rw [hid]
          dsimp only
          have howned : (dir.own (Slot.ofBlock block).dir).2.isOwned (Slot.ofBlock block).dir =
              true := by simp [isOwned_own]
          obtain ⟨hok, hentry⟩ := ih (stop - (block + 1)) (by omega)
            ((dir.own (Slot.ofBlock block).dir).2.modifyEntry (Slot.ofBlock block)
              fun _ => Entry.forbidden) _ rfl
          refine ⟨hok, fun s => ?_⟩
          rw [hentry, entry_modifyEntry, entry_own]
          by_cases hs : Slot.ofBlock block = s
          · subst hs
            rw [if_neg (by omega), if_pos ⟨howned, rfl⟩, if_pos (by omega)]
          · have hne : block ≠ s.number := by
              rintro rfl
              exact hs (Slot.ofBlock_number s)
            rw [if_neg (c := _ ∧ _) (fun hin => hs hin.2)]
            exact if_congr (by omega) rfl rfl
      · rw [forbidSpan, dif_neg (by omega)]
        exact ⟨rfl, fun s => by rw [if_neg (by omega)]⟩

end Directory

end RegionGuard
