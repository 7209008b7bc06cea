import RegionGuard.Proofs.Table.Range

/-!
# Visiting blocks one at a time

The loop over the blocks between two others advances from page to page.  It readies the
page of a slot once and then changes all the entries of the range that are on it.  Here
the same blocks are also visited one at a time, in ascending order, and each one readies
the page of its slot anew.  The two leave the same directory, page for page, and not only
the same entries.

To tell how often and in what order entries are visited, both are stated for functions
that hand on a state from one entry to the next.  The visits by pages go through the very
parts of the range that the loop goes through, and have no result if an index of theirs is
outside the directory or outside a page.  They always have one.
-/

namespace RegionGuard

namespace Stretch

/-- The numbers of the blocks, in ascending order. -/
def blocks (r : Stretch) : List Nat :=
  List.range' (r.dir * blocksPerPage + r.index) r.length

/-- There is such a slot, and its page has all these entries. -/
def InBounds (r : Stretch) : Prop :=
  r.dir < directorySlots ∧ r.index + r.length ≤ blocksPerPage

instance (r : Stretch) : Decidable r.InBounds :=
  inferInstanceAs (Decidable (_ ∧ _))

/-- Its number is then that of its slot. -/
theorem slot_of_inBounds (r : Stretch) (h : r.InBounds) : r.slot = ⟨r.dir, h.1⟩ :=
  Fin.ext (Nat.mod_eq_of_lt h.1)

end Stretch

/-- Putting back what a function makes of an entry is changing the entry by it. -/
theorem Page.modify_entry (page : Page) (i : Fin blocksPerPage) (change : Entry → Entry) :
    (page.modify i fun _ => change (page.entry i)) = page.modify i change := by
  rcases page with ⟨⟨entries, hsize⟩⟩
  simp only [Page.modify, Page.entry, Page.mk.injEq, Vector.mk.injEq]
  refine Array.ext_getElem? fun j => ?_
  rw [Array.getElem?_modify, Array.getElem?_modify]
  split
  · next hj => simp [← hj, hsize]
  · rfl

namespace Directory

variable {σ : Type}

/-- Visits the entry of a block, if its slot owns its page: the function is given the
entry and the state, and replaces both. -/
def visit (f : Entry → σ → Entry × σ) (x : Directory × σ) (s : Slot) : Directory × σ :=
  if x.1.isOwned s.dir then
    (x.1.modifyEntry s fun _ => (f (x.1.entry s) x.2).1, (f (x.1.entry s) x.2).2)
  else x

/-- Visits blocks one at a time.  With `promote`, the slot of each is given a page of its
own first. -/
def visitEach (promote : Bool) (f : Entry → σ → Entry × σ) (x : Directory × σ)
    (slots : List Slot) : Directory × σ :=
  slots.foldl (fun x s => visit f (x.1.readied promote s.dir, x.2) s) x

/-- Visits blocks part by part, with one look at the directory for each.  There is no
result if an index is out of bounds. -/
def visitStretches (promote : Bool) (f : Entry → σ → Entry × σ) :
    Directory × σ → List Stretch → Option (Directory × σ)
  | x, [] => some x
  | x, r :: rest =>
    if h : r.InBounds then
      visitStretches promote f
        ((r.blocks.map Slot.ofBlock).foldl (visit f) (x.1.readied promote ⟨r.dir, h.1⟩, x.2)) rest
    else none

/-- The slots of the blocks that have no page of their own. -/
def sharedSlots (dir : Directory) (slots : List Slot) : Finset (Fin directorySlots) :=
  Finset.univ.filter fun d => dir.isOwned d = false ∧ ∃ s ∈ slots, s.dir = d

/-- A function without state. -/
def stateless (change : Entry → Entry) (e : Entry) (_ : Unit) : Entry × Unit :=
  (change e, ())

/-- The directory after the blocks strictly between two others have been changed. -/
structure ChangesBetween (dir after : Directory) (first last : Slot) (promote : Bool)
    (change : Entry → Entry) : Prop where
  /-- The parts of the range are in the directory and on its pages. -/
  inBounds : ∀ r ∈ stretches (first.number + 1) last.number, r.InBounds
  /-- They have each block once, in ascending order. -/
  blocks_eq : (stretches (first.number + 1) last.number).flatMap Stretch.blocks =
    List.range' (first.number + 1) (last.number - (first.number + 1))
  /-- Visiting them part by part finds every index in bounds and is visiting each block on
  its own, whatever state the function hands on. -/
  visitEach_eq : ∀ {σ : Type} (f : Entry → σ → Entry × σ) (state : σ),
    visitStretches promote f (dir, state) (stretches (first.number + 1) last.number) =
      some (visitEach promote f (dir, state) (Slot.range (first.number + 1) last.number))
  /-- This is how the directory has come about. -/
  visitStretches_eq : visitStretches promote (stateless change) (dir, ())
    (stretches (first.number + 1) last.number) = some (after, ())
  /-- The function is applied once to the entries of these blocks, or without `promote` to
  those on an owned page, and the others are as before. -/
  entry_eq : ∀ s, after.entry s =
    if (first.number < s.number ∧ s.number < last.number) ∧
        (promote = true ∨ dir.isOwned s.dir = true) then change (dir.entry s)
    else dir.entry s
  /-- With `promote`, their slots own a page afterwards, and no other slot is given one. -/
  isOwned_iff : ∀ d, after.isOwned d = true ↔ dir.isOwned d = true ∨
    promote = true ∧ ∃ s : Slot, s.dir = d ∧ first.number < s.number ∧ s.number < last.number
  /-- On such a page the other entries are those of the shared page that it replaces. -/
  template_eq : ∀ s, dir.isOwned s.dir = false →
    ¬ (first.number < s.number ∧ s.number < last.number) →
      after.entry s = (dir.slots.get s.dir).template
  /-- Without it, no slot is promoted. -/
  slots_eq : promote = false → after.slots = dir.slots
  /-- There is one more page for each slot that has been promoted. -/
  size_pages_eq : after.pages.size = dir.pages.size +
    if promote then (dir.sharedSlots (Slot.range (first.number + 1) last.number)).card else 0

variable {dir : Directory} {x : Directory × σ} {promote : Bool} {f : Entry → σ → Entry × σ}
  {d : Fin directorySlots} {slots : List Slot} {block stop : Nat}

/-! ## The parts of a range -/

/-- A part has consecutive blocks, from the first one on. -/
theorem blocks_stretch (block count : Nat) :
    Stretch.blocks ⟨block / blocksPerPage, block % blocksPerPage, count⟩ =
      List.range' block count := by
  rw [Stretch.blocks, Nat.div_add_mod']

/-- The first part of a range is in bounds, and its blocks go no further than their page. -/
theorem inBounds_stretch (hstop : stop ≤ blockCount) (h : block < stop) :
    Stretch.InBounds ⟨block / blocksPerPage, block % blocksPerPage, runLength block stop⟩ := by
  have hmod := Nat.mod_lt block (show 0 < blocksPerPage by decide)
  have hblock : block < directorySlots * blocksPerPage := Nat.lt_of_lt_of_le h hstop
  have hrun : runLength block stop ≤ blocksPerPage - block % blocksPerPage := Nat.min_le_left _ _
  refine ⟨Nat.div_lt_of_lt_mul (by rwa [Nat.mul_comm]), ?_⟩
  show block % blocksPerPage + runLength block stop ≤ blocksPerPage
  omega

/-- All parts of a range are in bounds, because each starts within the range. -/
theorem inBounds_of_mem_stretches (hstop : stop ≤ blockCount) (block : Nat) :
    ∀ r ∈ stretches block stop, r.InBounds := by
  induction block using range_induction stop with
  | step block h ih =>
      rw [stretches_of_lt h]
      exact List.forall_mem_cons.mpr ⟨inBounds_stretch hstop h, ih⟩
  | done block h =>
      rw [stretches_of_le h]
      exact List.forall_mem_nil _

theorem runLength_le (block stop : Nat) : runLength block stop ≤ stop - block :=
  Nat.min_le_right _ _

/-- A range starts with its first part. -/
theorem range'_runLength (block stop : Nat) :
    List.range' block (stop - block) = List.range' block (runLength block stop) ++
      List.range' (block + runLength block stop) (stop - (block + runLength block stop)) := by
  have hle := runLength_le block stop
  rw [List.range'_append_1]
  congr 1
  omega

/-- Together the parts have every block of the range once, in ascending order. -/
theorem blocks_stretches (block stop : Nat) :
    (stretches block stop).flatMap Stretch.blocks = List.range' block (stop - block) := by
  induction block using range_induction stop with
  | step block h ih =>
      rw [stretches_of_lt h, List.flatMap_cons, ih, blocks_stretch, ← range'_runLength]
  | done block h =>
      rw [stretches_of_le h, Nat.sub_eq_zero_of_le h]
      rfl

/-- The last two blocks of a page, and all of the next one. -/
example : stretches 2046 4096 = [⟨0, 2046, 2⟩, ⟨1, 0, 2048⟩] := by cbv

/-- A range of slots starts with those of its first part. -/
theorem range_runLength (block stop : Nat) :
    Slot.range block stop = (List.range' block (runLength block stop)).map Slot.ofBlock ++
      Slot.range (block + runLength block stop) stop := by
  rw [Slot.range, range'_runLength, List.map_append]
  rfl

/-- The blocks of a part have the slot of the first one. -/
theorem dir_of_mem_stretch {s : Slot}
    (hs : s ∈ (List.range' block (runLength block stop)).map Slot.ofBlock) :
    s.dir = (Slot.ofBlock block).dir := by
  obtain ⟨number, hnumber, rfl⟩ := List.mem_map.mp hs
  rw [List.mem_range'_1] at hnumber
  have hrun : runLength block stop ≤ 2048 - block % 2048 := Nat.min_le_left _ _
  refine Fin.ext ?_
  show number / 2048 % 8192 = block / 2048 % 8192
  omega

/-! ## One look at the directory for a part -/

/-- A slot that owns its page keeps it. -/
theorem own_of_isOwned (h : dir.isOwned d = true) : (dir.own d).2 = dir := by
  unfold own
  split
  · rfl
  all_goals
    rename_i hd
    rw [isOwned, hd] at h
    cases h

@[simp] theorem isOwned_visit (d : Fin directorySlots) (s : Slot) :
    (visit f x s).1.isOwned d = x.1.isOwned d := by
  unfold visit
  split
  · exact isOwned_modifyPage _ _ _ _
  · rfl

/-- What is ready needs not be readied again. -/
theorem readied_of_ready (h : promote = true → dir.isOwned d = true) :
    dir.readied promote d = dir := by
  unfold readied
  split
  · next hpromote => exact own_of_isOwned (h hpromote)
  · rfl

/-- On a page that is ready, the blocks can be visited with no look at the directory. -/
theorem visitEach_of_ready (h : promote = true → x.1.isOwned d = true)
    (hslots : ∀ s ∈ slots, s.dir = d) :
    visitEach promote f x slots = slots.foldl (visit f) x := by
  induction slots generalizing x with
  | nil => rfl
  | cons s slots ih =>
      obtain ⟨hs, hrest⟩ := List.forall_mem_cons.mp hslots
      have hready : x.1.readied promote s.dir = x.1 := readied_of_ready (by rwa [hs])
      have hafter : promote = true → (visit f x s).1.isOwned d = true := by
        rwa [isOwned_visit]
      rw [List.foldl_cons, ← ih hafter hrest]
      show visitEach promote f (visit f (x.1.readied promote s.dir, x.2) s) slots = _
      rw [hready]

/-- One look is enough for blocks of the same slot, as the first visit has readied it. -/
theorem visitEach_of_dir (hne : slots ≠ []) (hslots : ∀ s ∈ slots, s.dir = d) :
    visitEach promote f x slots = slots.foldl (visit f) (x.1.readied promote d, x.2) := by
  cases slots with
  | nil => exact absurd rfl hne
  | cons s rest =>
      obtain ⟨hs, hrest⟩ := List.forall_mem_cons.mp hslots
      have hready : promote = true →
          (visit f (x.1.readied promote d, x.2) s).1.isOwned d = true := by
        intro hpromote
        rw [isOwned_visit, isOwned_readied]
        simp [hpromote]
      rw [List.foldl_cons, ← visitEach_of_ready hready hrest, ← hs]
      rfl

theorem visitEach_append (more : List Slot) :
    visitEach promote f x (slots ++ more) =
      visitEach promote f (visitEach promote f x slots) more :=
  List.foldl_append

/-- The slot of a block within the address space has the number that the loop computes. -/
theorem dir_ofBlock (h : block / blocksPerPage < directorySlots) :
    (Slot.ofBlock block).dir = ⟨block / blocksPerPage, h⟩ :=
  Fin.ext (Nat.mod_eq_of_lt h)

/-- Part by part, every index is in bounds, and the outcome is that of visiting the blocks
of the range one at a time. -/
theorem visitStretches_eq (hstop : stop ≤ blockCount) (promote : Bool)
    (f : Entry → σ → Entry × σ) (x : Directory × σ) (block : Nat) :
    visitStretches promote f x (stretches block stop) =
      some (visitEach promote f x (Slot.range block stop)) := by
  induction block using range_induction stop generalizing x with
  | step block h ih =>
      have hbounds := inBounds_stretch hstop h
      have hne : (List.range' block (runLength block stop)).map Slot.ofBlock ≠ [] := by
        have hpos := runLength_pos h
        simp only [ne_eq, List.map_eq_nil_iff, List.range'_eq_nil_iff]
        omega
      rw [stretches_of_lt h, visitStretches, dif_pos hbounds, ih, range_runLength block stop,
        visitEach_append, visitEach_of_dir hne fun s => dir_of_mem_stretch, blocks_stretch,
        dir_ofBlock hbounds.1]
  | done block h =>
      rw [stretches_of_le h, Slot.range, Nat.sub_eq_zero_of_le h]
      rfl

/-! ## Functions without state -/

/-- Directories are equal if they have the same slots and the same pages. -/
theorem eq_of_slots_of_pages {a b : Directory} (hslots : a.slots = b.slots)
    (hpages : ∀ i : Nat, a.pages[i]? = b.pages[i]?) : a = b := by
  cases a
  cases b
  cases hslots
  cases Array.ext_getElem? hpages
  rfl

/-- A change of a slot that owns its page reaches just this page. -/
theorem getElem?_pages_modifyPage {id : PageId} (change : Page → Page)
    (h : dir.slots.get d = .owned id) (i : Nat) :
    (dir.modifyPage d change).pages[i]? =
      if id.index = i then dir.pages[i]?.map change else dir.pages[i]? := by
  have hd : dir.slots[d] = .owned id := h
  simp only [modifyPage, hd, Array.getElem?_modify]

/-- Only what a change does to the slot's own page matters. -/
theorem modifyPage_congr {change other : Page → Page}
    (h : ∀ id page, dir.slots.get d = .owned id → dir.pages[id.index]? = some page →
      change page = other page) : dir.modifyPage d change = dir.modifyPage d other := by
  cases hd : dir.slots[d] with
  | owned id =>
      refine eq_of_slots_of_pages (by rw [slots_modifyPage, slots_modifyPage]) fun i => ?_
      rw [getElem?_pages_modifyPage change hd, getElem?_pages_modifyPage other hd]
      split
      · next hi =>
          obtain ⟨page, hpage⟩ := exists_page hd
          rw [← hi, hpage]
          exact congrArg some (h id page hd hpage)
      · rfl
  | untracked | forbidden =>
      rw [modifyPage_of_shared _ (by rw [hd]; rfl), modifyPage_of_shared _ (by rw [hd]; rfl)]

/-- Changing nothing on a page changes nothing. -/
theorem modifyPage_self (dir : Directory) (d : Fin directorySlots) :
    (dir.modifyPage d fun page => page) = dir := by
  cases hd : dir.slots[d] with
  | owned id =>
      refine eq_of_slots_of_pages (slots_modifyPage _ _ _) fun i => ?_
      rw [getElem?_pages_modifyPage _ hd]
      split
      · exact Option.map_id_apply
      · rfl
  | untracked | forbidden => exact modifyPage_of_shared _ (by rw [hd]; rfl)

/-- Two changes of the same page are one. -/
theorem modifyPage_modifyPage (dir : Directory) (d : Fin directorySlots)
    (change later : Page → Page) :
    (dir.modifyPage d change).modifyPage d later = dir.modifyPage d (later ∘ change) := by
  cases hd : dir.slots[d] with
  | owned id =>
      have hd' : (dir.modifyPage d change).slots[d] = .owned id := by
        rwa [slots_modifyPage]
      refine eq_of_slots_of_pages (by simp only [slots_modifyPage]) fun i => ?_
      rw [getElem?_pages_modifyPage later hd', getElem?_pages_modifyPage change hd,
        getElem?_pages_modifyPage _ hd]
      split
      · exact Option.map_map _ _ _
      · rfl
  | untracked | forbidden =>
      have hshared : dir.slots[d].isOwned = false := by rw [hd]; rfl
      rw [modifyPage_of_shared change hshared, modifyPage_of_shared _ hshared,
        modifyPage_of_shared _ hshared]

/-- A visit by a function without state changes the entry, if the slot owns its page. -/
theorem visit_stateless (dir : Directory) (s : Slot) (change : Entry → Entry) :
    visit (stateless change) (dir, ()) s = (dir.modifyEntry s change, ()) := by
  unfold visit
  split
  · refine Prod.ext (modifyPage_congr fun id page hid hpage => ?_) rfl
    rw [stateless, entry_of_owned hid hpage]
    exact Page.modify_entry page s.index change
  · next hshared =>
      have hshared' : dir.slots[s.dir].isOwned = false := Bool.eq_false_iff.mpr hshared
      rw [modifyEntry, modifyPage_of_shared _ hshared']

/-- Visiting the blocks of a part is one change of their page. -/
theorem foldl_visit_stateless (dir : Directory) (d : Fin directorySlots) (change : Entry → Entry)
    {start count : Nat} (h : start + count ≤ blocksPerPage) :
    ((List.range' (d * blocksPerPage + start) count).map Slot.ofBlock).foldl
        (visit (stateless change)) (dir, ()) =
      (dir.modifyPage d fun page => page.modifyRange start change count, ()) := by
  induction count generalizing dir start with
  | zero => exact Prod.ext (modifyPage_self dir d).symm rfl
  | succ count ih =>
      have hstart : start < 2048 := by
        have h' : start + (count + 1) ≤ 2048 := h
        omega
      have hslot : Slot.ofBlock (d * blocksPerPage + start) = ⟨d, ⟨start, hstart⟩⟩ := by
        have hd : d.val < 8192 := d.isLt
        have hdir : (d.val * 2048 + start) / 2048 % 8192 = d.val := by omega
        have hindex : (d.val * 2048 + start) % 2048 = start := by omega
        exact congr (congrArg Slot.mk (Fin.ext hdir)) (Fin.ext hindex)
      rw [List.range'_succ, List.map_cons, List.foldl_cons, visit_stateless, Nat.add_assoc,
        ih _ (by omega), hslot, modifyEntry, modifyPage_modifyPage]
      rfl

/-- On parts whose indices are in bounds, the loop is visiting them by a function without
state. -/
theorem visitStretches_stateless (promote : Bool) (change : Entry → Entry) (dir : Directory)
    {parts : List Stretch} (h : ∀ r ∈ parts, r.InBounds) :
    visitStretches promote (stateless change) (dir, ()) parts =
      some ((dir.modifyStretches promote change parts).2, ()) := by
  induction parts generalizing dir with
  | nil => rfl
  | cons r rest ih =>
      obtain ⟨hr, hrest⟩ := List.forall_mem_cons.mp h
      have hvisit := foldl_visit_stateless (dir.readied promote ⟨r.dir, hr.1⟩) ⟨r.dir, hr.1⟩
        change hr.2
      rw [visitStretches, dif_pos hr, modifyStretches_cons, r.slot_of_inBounds hr, ← ih _ hrest]
      exact congrArg (fun x => visitStretches promote (stateless change) x _) hvisit

/-! ## The blocks between two others -/

/-- Without `promote` no slot is touched. -/
theorem slots_modifySpan_false (dir : Directory) (change : Entry → Entry) (block stop : Nat) :
    (dir.modifySpan false change block stop).2.slots = dir.slots := by
  induction block using range_induction stop generalizing dir with
  | step block h ih => rw [modifySpan_of_lt dir false change h, ih, slots_modifyPage, readied,
      if_neg Bool.false_ne_true]
  | done block h => rw [modifySpan_of_le dir false change h]

/-- Pages are as many as slots that own one, so those that have been promoted count. -/
theorem size_pages_modifySpan (hstop : stop ≤ blockCount) (dir : Directory) (promote : Bool)
    (change : Entry → Entry) (block : Nat) :
    (dir.modifySpan promote change block stop).2.pages.size = dir.pages.size +
      if promote then (dir.sharedSlots (Slot.range block stop)).card else 0 := by
  have howned : ∀ d, (dir.modifySpan promote change block stop).2.isOwned d = true ↔ _ :=
    dir.isOwned_modifySpan promote change hstop
  rw [size_pages_eq, size_pages_eq dir]
  cases promote with
  | false =>
      simp only [howned, Bool.false_eq_true, false_and, or_false, if_false, Nat.add_zero]
  | true =>
      have hdisjoint : Disjoint (Finset.univ.filter fun d => dir.isOwned d = true)
          (dir.sharedSlots (Slot.range block stop)) := by
        rw [sharedSlots, Finset.disjoint_filter]
        intro d _ hold hshared
        rw [hshared.1] at hold
        cases hold
      rw [if_pos rfl, ← Finset.card_union_of_disjoint hdisjoint]
      refine congrArg Finset.card (Finset.ext fun d => ?_)
      simp only [sharedSlots, Finset.mem_filter, Finset.mem_union, Finset.mem_univ, true_and,
        howned, Slot.mem_range_iff hstop]
      by_cases hold : dir.isOwned d = true
      · simp [hold]
      · simp [hold, and_comm]

/-- For every directory, all blocks and every function, with and without `promote`. -/
theorem changesBetween_modifySpan (dir : Directory) (first last : Slot) (promote : Bool)
    (change : Entry → Entry) :
    ∃ after, dir.modifySpan promote change (first.number + 1) last.number = (true, after) ∧
      dir.ChangesBetween after first last promote change := by
  have hstop : last.number ≤ blockCount := Nat.le_of_lt last.number_lt
  have hentry : ∀ s, (dir.modifySpan promote change (first.number + 1) last.number).2.entry s = _ :=
    dir.entry_modifySpan promote change hstop
  refine ⟨(dir.modifySpan promote change (first.number + 1) last.number).2,
    Prod.ext (dir.fst_modifySpan promote change _ _) rfl, ?_⟩
  exact
    { inBounds := inBounds_of_mem_stretches hstop _
      blocks_eq := blocks_stretches _ _
      visitEach_eq := fun f state => visitStretches_eq hstop promote f (dir, state) _
      visitStretches_eq :=
        visitStretches_stateless promote change dir (inBounds_of_mem_stretches hstop _)
      entry_eq := by
        intro s
        rw [hentry]
        exact if_congr (and_congr Iff.rfl Bool.or_eq_true_iff) rfl rfl
      isOwned_iff := dir.isOwned_modifySpan promote change hstop
      template_eq := by
        intro s hshared hout
        rw [hentry, if_neg fun hin => hout hin.1]
        exact entry_of_shared hshared
      slots_eq := by
        intro hpromote
        rw [hpromote]
        exact slots_modifySpan_false dir change _ _
      size_pages_eq := size_pages_modifySpan hstop dir promote change _ }

end Directory

end RegionGuard
