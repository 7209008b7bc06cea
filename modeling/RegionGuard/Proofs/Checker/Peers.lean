import RegionGuard.Proofs.Checker.Failing
import RegionGuard.Proofs.Table.Looking
import RegionGuard.Proofs.Table.Barred

/-!
# A strict checker and its permissive peer

The policy for untracked memory has a say in moves and accesses only, and there it
works one way: where a strict check succeeds, a permissive one succeeds with the same
address, and a move that stays valid under the strict policy ends at the same place
under the other.  Two checkers that differ in the policy can therefore be used side
by side.  What the strict one does with success its peer does as well, and the live
regions and the heaps stay the same.

A pointer that is invalid to the strict checker may be anything to its peer.  The
strict one can move such a pointer on, but it can neither access it nor free or resize
it: no region starts at the address that stands for it.
-/

namespace RegionGuard

/-- The same settings with another policy for untracked memory. -/
def Config.under (config : Config) (policy : UntrackedPolicy) : Config :=
  { config with untracked := policy }

/-- The second pointer is what the first one is, unless that is invalid. -/
def Pointer.Relaxes (ptr ptr' : Pointer) : Prop :=
  ptr = .invalid ∨ ptr' = ptr

/-- The region is apart from the live ones and does not start at the address that
stands for the invalid pointer. -/
structure Bounds.Suits (b : Bounds) (live : Set Bounds) : Prop where
  start_ne : b.start ≠ invalidAddr
  apart : ∀ r ∈ live, r.Apart b

namespace Table

variable {t other : Table} {zones : List Zone} {live : Set Bounds} {ptr ptr' : Pointer}

/-! ## Checks and moves under both policies -/

/-- Whatever the strict policy accepts is in a live region, and there the policy has no say. -/
theorem Accepts.permit {addr target : Addr} {width : Width}
    (h : t.Accepts live .forbid addr width target) :
    other.Accepts live .permit addr width target := by
  rcases h with hregion | ⟨-, -, hpolicy, -⟩
  · exact .inl hregion
  · cases hpolicy

/-- What a strict check accepts a permissive one accepts. -/
theorem Tracks.locate_relaxes (h : t.Tracks zones live) (h' : other.Tracks zones live)
    (hptr : ptr.Relaxes ptr') {offset : Int32} {width : Width} {target : Addr}
    (hok : (t.locate ptr offset width .forbid).1 = .ok target) :
    (other.locate ptr' offset width .permit).1 = .ok target := by
  cases ptr with
  | invalid => cases hok
  | valid addr =>
      rcases hptr with hinvalid | rfl
      · cases hinvalid
      · obtain ⟨hmoved, haccepts⟩ := h.locate_eq_ok_iff.mp hok
        exact h'.locate_eq_ok_iff.mpr ⟨hmoved, haccepts.permit⟩

/-- Bounds under the strict policy contain nothing that they do not contain under the
other one. -/
theorem Tracks.contains_boundsUnder (h : t.Tracks zones live) (h' : other.Tracks zones live)
    {addr moved : Addr} (hin : (t.boundsUnder addr .forbid).1.contains moved = true) :
    (other.boundsUnder addr .permit).1.contains moved = true := by
  by_cases hspans : ∃ b ∈ live, b.Spans addr
  · obtain ⟨b, hb, hspans⟩ := hspans
    rw [h.boundsUnder_of_spans hb hspans] at hin
    rw [h'.boundsUnder_of_spans hb hspans]
    exact hin
  · push Not at hspans
    rw [h.boundsUnder_of_none hspans, if_neg (by simp)] at hin
    rw [h'.boundsUnder_of_none hspans]
    split
    · have hmoved : moved.toNat < 4294967296 := moved.toNat_lt
      have hspans' : Bounds.untracked.Spans moved := by
        show 0 ≤ moved.toNat ∧ moved.toNat ≤ 0 + 4294967295
        omega
      exact Bounds.fits_untracked.contains_iff.mpr hspans'
    · exact hin

/-- A move that stays valid under the strict policy ends where it ends under the other
one. -/
theorem Tracks.advance_relaxes (h : t.Tracks zones live) (h' : other.Tracks zones live)
    (hptr : ptr.Relaxes ptr') (offset : Int32) :
    (t.advance ptr offset .forbid).1.Relaxes (other.advance ptr' offset .permit).1 := by
  cases ptr with
  | invalid => exact .inl rfl
  | valid addr =>
      rcases hptr with hinvalid | rfl
      · cases hinvalid
      · rw [fst_advance_valid, fst_advance_valid]
        by_cases hin : (t.boundsUnder addr .forbid).1.contains (addr + offset.toUInt32) = true
        · rw [if_pos hin, if_pos (h.contains_boundsUnder h' hin)]
          exact .inr rfl
        · rw [if_neg hin]
          exact .inl rfl

/-- A registration that succeeds in one table succeeds in the other. -/
theorem Tracks.register_both (h : t.Tracks zones live) (h' : other.Tracks zones live)
    {start : Addr} {size : UInt32} {after : Table} (hok : t.register start size = (.ok (), after))
    (hapart : ∀ b ∈ live, b.Apart ⟨start, size⟩) :
    after.Tracks zones (insert ⟨start, size⟩ live) ∧
      ∃ after', other.register start size = (.ok (), after') ∧
        after'.Tracks zones (insert ⟨start, size⟩ live) := by
  have hresult := h.fst_register start size
  rw [hok] at hresult
  by_cases hstart : start = 0
  · rw [if_pos hstart] at hresult
    cases hresult
  · by_cases hover : addressCount ≤ start.toNat + size.toNat
    · rw [if_neg hstart, if_pos hover] at hresult
      cases hresult
    · have hfits : Bounds.Fits ⟨start, size⟩ := Nat.lt_of_not_le hover
      obtain ⟨one, hone, htracks⟩ := h.register hstart hfits hapart
      obtain rfl : one = after := congrArg Prod.snd (hone.symm.trans hok)
      exact ⟨htracks, h'.register hstart hfits hapart⟩

/-- A removal that succeeds in one table takes a live region out of both. -/
theorem Tracks.unregister_both (h : t.Tracks zones live) (h' : other.Tracks zones live)
    {start : Addr} {after : Table} (hok : t.unregister start = (.ok (), after)) :
    ∃ b ∈ live, b.start = start ∧ after.Tracks zones (live \ {b}) ∧
      ∃ after', other.unregister start = (.ok (), after') ∧
        after'.Tracks zones (live \ {b}) := by
  by_cases hlive : ∃ b ∈ live, b.start = start
  · obtain ⟨b, hb, rfl⟩ := hlive
    obtain ⟨one, hone, htracks⟩ := h.unregister_of_mem hb
    obtain rfl : one = after := congrArg Prod.snd (hone.symm.trans hok)
    exact ⟨b, hb, rfl, htracks, h'.unregister_of_mem hb⟩
  · push Not at hlive
    obtain ⟨one, hone, -⟩ := h.unregister_of_none hlive
    rw [hone] at hok
    cases hok

end Table

namespace Checker

/-- The first checker is strict, the second one is permissive, and otherwise they
differ at most in the order of chains. -/
structure Peers (config : Config) (live : Set Bounds) (c other : Checker Heap) : Prop where
  config_eq : c.config = config.under .forbid
  config_eq' : other.config = config.under .permit
  tracks : c.table.Tracks config.zones live
  tracks' : other.table.Tracks config.zones live
  heap_eq : other.heap = c.heap
  start_ne : ∀ b ∈ live, b.start ≠ invalidAddr

/-- If the first outcome is a success, the second one is the same success, and peers
are still peers. -/
def Follows {α : Type} (config : Config) (first second : Except Violation α × Checker Heap) :
    Prop :=
  ∀ value, first.1 = .ok value →
    second.1 = .ok value ∧ ∃ live, Peers config live first.2 second.2

variable {config : Config} {live : Set Bounds} {c other : Checker Heap} {α : Type}
  {ptr ptr' : Pointer}

theorem Follows.of_error {first second : Except Violation α × Checker Heap}
    (violation : Violation) (h : first.1 = .error violation) : Follows config first second := by
  intro value hok
  rw [h] at hok
  cases hok

theorem Follows.of_ok {value : α} {after after' : Checker Heap}
    (h : Peers config live after after') :
    Follows config (.ok value, after) (.ok value, after') := by
  intro _ hok
  exact ⟨hok, live, h⟩

/-- The first outcome is an error, or both are the same success. -/
theorem Follows.error_or_ok {first second : Except Violation α × Checker Heap}
    (h : Follows config first second) :
    (∃ violation after, first = (.error violation, after)) ∨
    ∃ value after after' live, first = (.ok value, after) ∧ second = (.ok value, after') ∧
      Peers config live after after' := by
  rcases first with ⟨violation | value, after⟩
  · exact .inl ⟨violation, after, rfl⟩
  · obtain ⟨hok', live, hpeers⟩ := h value rfl
    exact .inr ⟨value, after, second.2, live, rfl, Prod.ext hok' rfl, hpeers⟩

theorem Follows.exists_eq {first second : Except Violation α × Checker Heap}
    (h : Follows config first second) {value : α} {after : Checker Heap}
    (hok : first = (.ok value, after)) :
    ∃ after' live, second = (.ok value, after') ∧ Peers config live after after' := by
  subst hok
  obtain ⟨hok', live, hpeers⟩ := h value rfl
  exact ⟨second.2, live, Prod.ext hok' rfl, hpeers⟩

/-! ## What one checker does -/

theorem advance_of_eq {policy : UntrackedPolicy} (hpolicy : c.config.untracked = policy)
    {offset : Int32} {table : Table} (h : c.table.advance ptr offset policy = (ptr', table)) :
    c.advance ptr offset = (ptr', ⟨table, c.heap, c.config⟩) := by
  subst hpolicy
  show ((c.table.advance ptr offset c.config.untracked).1,
    Checker.mk (c.table.advance ptr offset c.config.untracked).2 c.heap c.config) = _
  rw [h]

namespace Peers

/-- Tables that track the same regions and heaps that are the same can be put in. -/
theorem replace (h : Peers config live c other) {now : Set Bounds} {table table' : Table}
    (htracks : table.Tracks config.zones now) (htracks' : table'.Tracks config.zones now)
    {heap heap' : Heap} (hheap : heap' = heap) (hstart : ∀ b ∈ now, b.start ≠ invalidAddr) :
    Peers config now ⟨table, heap, c.config⟩ ⟨table', heap', other.config⟩ :=
  ⟨h.config_eq, h.config_eq', htracks, htracks', hheap, hstart⟩

/-- The tables have changed in their order only. -/
theorem of_tables (h : Peers config live c other) {table table' : Table}
    (htracks : table.Tracks config.zones live) (htracks' : table'.Tracks config.zones live) :
    Peers config live ⟨table, c.heap, c.config⟩ ⟨table', other.heap, other.config⟩ :=
  h.replace htracks htracks' h.heap_eq h.start_ne

/-- The heaps have changed in the same way. -/
theorem of_heaps (h : Peers config live c other) (heap : Heap) :
    Peers config live ⟨c.table, heap, c.config⟩ ⟨other.table, heap, other.config⟩ :=
  h.replace h.tracks h.tracks' rfl h.start_ne

/-- A suitable region has come to the live ones. -/
theorem of_insert (h : Peers config live c other) {b : Bounds} (hsuits : b.Suits live)
    {table table' : Table} (htracks : table.Tracks config.zones (insert b live))
    (htracks' : table'.Tracks config.zones (insert b live)) {heap heap' : Heap}
    (hheap : heap' = heap) :
    Peers config (insert b live) ⟨table, heap, c.config⟩ ⟨table', heap', other.config⟩ := by
  refine h.replace htracks htracks' hheap ?_
  intro r hr
  rcases Set.mem_insert_iff.mp hr with rfl | hr
  · exact hsuits.start_ne
  · exact h.start_ne r hr

/-- A region is no longer live. -/
theorem of_erase (h : Peers config live c other) {b : Bounds} {table table' : Table}
    (htracks : table.Tracks config.zones (live \ {b}))
    (htracks' : table'.Tracks config.zones (live \ {b})) {heap heap' : Heap}
    (hheap : heap' = heap) :
    Peers config (live \ {b}) ⟨table, heap, c.config⟩ ⟨table', heap', other.config⟩ :=
  h.replace htracks htracks' hheap fun r hr => h.start_ne r hr.1

theorem untracked_eq (h : Peers config live c other) : c.config.untracked = .forbid := by
  rw [h.config_eq]
  rfl

theorem untracked_eq' (h : Peers config live c other) : other.config.untracked = .permit := by
  rw [h.config_eq']
  rfl

/-! ## Regions and pointers -/

/-- A suitable region that the strict checker registers is registered by its peer too. -/
theorem register (h : Peers config live c other) {addr : Addr} {size : UInt32}
    (hsuits : (c.register addr size).1 = .ok () → Bounds.Suits ⟨addr, size⟩ live) :
    Follows config (c.register addr size) (other.register addr size) := by
  rw [register_eq] at hsuits ⊢
  rw [register_eq]
  intro value hok
  have hsuits := hsuits hok
  obtain ⟨htracks, after', hafter', htracks'⟩ :=
    h.tracks.register_both h.tracks' (Prod.ext hok rfl) hsuits.apart
  rw [hafter']
  exact ⟨rfl, _, h.of_insert hsuits htracks htracks' h.heap_eq⟩

/-- A region that the strict checker removes is removed by its peer too. -/
theorem unregister (h : Peers config live c other) (addr : Addr) :
    Follows config (c.unregister addr) (other.unregister addr) := by
  rw [unregister_eq, unregister_eq]
  intro value hok
  obtain ⟨b, -, -, htracks, after', hafter', htracks'⟩ :=
    h.tracks.unregister_both h.tracks' (Prod.ext hok rfl)
  rw [hafter']
  exact ⟨rfl, _, h.of_erase htracks htracks' h.heap_eq⟩

/-- Moves never fail, so here the pointers are what has to be compared. -/
theorem advance (h : Peers config live c other) (hptr : ptr.Relaxes ptr') (offset : Int32) :
    (c.advance ptr offset).1.Relaxes (other.advance ptr' offset).1 ∧
      Peers config live (c.advance ptr offset).2 (other.advance ptr' offset).2 := by
  constructor
  · have hrelaxes := h.tracks.advance_relaxes h.tracks' hptr offset
    rw [← h.untracked_eq, ← h.untracked_eq'] at hrelaxes
    exact hrelaxes
  · exact h.of_tables (h.tracks.advance ptr offset _) (h.tracks'.advance ptr' offset _)

/-! ## Loads and stores -/

/-- What the strict checker may access its peer may access at the same address. -/
theorem locate (h : Peers config live c other) (hptr : ptr.Relaxes ptr') {offset : Int32}
    {width : Width} {target : Addr}
    (hok : (c.table.locate ptr offset width c.config.untracked).1 = .ok target) :
    (other.table.locate ptr' offset width other.config.untracked).1 = .ok target := by
  rw [h.untracked_eq] at hok
  rw [h.untracked_eq']
  exact h.tracks.locate_relaxes h.tracks' hptr hok

/-- A load that passes the strict check reads the same value on the other side, as the heaps are
the same and the address is. -/
theorem load (h : Peers config live c other) (hptr : ptr.Relaxes ptr') (offset : Int32)
    (access : Access) :
    Follows config (c.load ptr offset access) (other.load ptr' offset access) := by
  intro value hok
  obtain ⟨bytes, hbytes, hdecoded⟩ := load_eq_ok_iff.mp hok
  obtain ⟨target, hlocate, hmapped, hread⟩ := loadBytes_eq_ok_iff.mp hbytes
  rw [← h.heap_eq] at hmapped hread
  have hbytes' := loadBytes_eq_ok_iff.mpr ⟨target, h.locate hptr hlocate, hmapped, hread⟩
  refine ⟨load_eq_ok_iff.mpr ⟨bytes, hbytes', hdecoded⟩, live, ?_⟩
  rw [load_eq, load_eq, loadBytes_eq, loadBytes_eq]
  exact h.of_tables (h.tracks.locate ptr offset access.width _)
    (h.tracks'.locate ptr' offset access.width _)

/-- A store that passes the strict check writes the same bytes on the other side. -/
theorem store (h : Peers config live c other) (hptr : ptr.Relaxes ptr') (offset : Int32)
    (access : Access) (value : Int64) :
    Follows config (c.store ptr offset access value) (other.store ptr' offset access value) := by
  intro _ hok
  have hlength := access.length_encode value
  obtain ⟨target, hlocate, hmapped⟩ := (fst_storeBytes_eq_ok_iff hlength).mp hok
  have hwrite : c.heap.write target (access.encode value) =
      (.ok (), (c.heap.write target (access.encode value)).2) :=
    Prod.ext ((c.heap.fst_write_eq_ok_iff target hlength).mpr hmapped) rfl
  have hwrite' := hwrite
  rw [← h.heap_eq] at hwrite'
  rw [Checker.store, Checker.store, storeBytes_of_ok hlocate hwrite,
    storeBytes_of_ok (h.locate hptr hlocate) hwrite', h.heap_eq]
  have hlocated := h.of_tables (h.tracks.locate ptr offset access.width c.config.untracked)
    (h.tracks'.locate ptr' offset access.width other.config.untracked)
  exact ⟨rfl, live, hlocated.of_heaps _⟩

/-! ## Allocations -/

/-- Equal heaps hand out the same block, so peers allocate alike if its region is suitable. -/
theorem allocate (h : Peers config live c other) {size : UInt32}
    (hsuits : ∀ addr, (c.allocate size).1 = .ok (some addr) → Bounds.Suits ⟨addr, size⟩ live) :
    Follows config (c.allocate size) (other.allocate size) := by
  rcases c.allocate_cases size with
    ⟨heap, hheap, hnone⟩ | ⟨addr, heap, table, hheap, htable, hsome⟩ | ⟨violation, herror⟩
  · rw [← h.heap_eq] at hheap
    rw [hnone, allocate_of_none hheap]
    exact .of_ok (h.of_heaps heap)
  · have hsuits := hsuits addr (congrArg Prod.fst hsome)
    obtain ⟨htracks, table', htable', htracks'⟩ :=
      h.tracks.register_both h.tracks' htable hsuits.apart
    rw [← h.heap_eq] at hheap
    rw [hsome, allocate_of_some hheap htable']
    exact .of_ok (h.of_insert hsuits htracks htracks' rfl)
  · exact .of_error _ herror

/-- An allocation that finds no room registers nothing. -/
theorem allocate_none (h : Peers config live c other) {size : UInt32} {after : Checker Heap}
    (hnone : c.allocate size = (.ok none, after)) :
    ∃ after' live', other.allocate size = (.ok none, after') ∧
      Peers config live' after after' := by
  refine Follows.exists_eq (h.allocate ?_) hnone
  intro addr hok
  rw [hnone] at hok
  cases hok

/-- Only the place that an allocation finds has to suit. -/
theorem allocate_some (h : Peers config live c other) {size : UInt32} {addr : Addr}
    {after : Checker Heap} (hsome : c.allocate size = (.ok (some addr), after))
    (hsuits : Bounds.Suits ⟨addr, size⟩ live) :
    ∃ after' live', other.allocate size = (.ok (some addr), after') ∧
      Peers config live' after after' := by
  refine Follows.exists_eq (h.allocate ?_) hsome
  intro place hok
  rw [hsome] at hok
  obtain rfl := Option.some.inj (Except.ok.inj hok)
  exact hsuits

/-- Clearing has the same result on equal heaps, and tables are not involved. -/
theorem clearFresh (h : Peers config live c other) (addr : Addr) (size : UInt32) :
    Follows config (c.clearFresh addr size) (other.clearFresh addr size) := by
  intro value hok
  have hstate := c.clearFresh_eq addr size
  have hstate' := other.clearFresh_eq addr size
  have hresult : (other.clearFresh addr size).1 = (c.clearFresh addr size).1 := by
    rw [fst_clearFresh, fst_clearFresh, h.heap_eq]
  rw [hstate, hstate', hresult, h.heap_eq]
  exact ⟨hok, live, h.of_heaps _⟩

/-- Peers allocate alike with zeros, too. -/
theorem allocateZeros (h : Peers config live c other) {count size : UInt32}
    (hsuits : ∀ addr, (c.allocateZeros count size).1 = .ok (some addr) →
      Bounds.Suits ⟨addr, count * size⟩ live) :
    Follows config (c.allocateZeros count size) (other.allocateZeros count size) := by
  unfold Checker.allocateZeros at hsuits ⊢
  by_cases hlarge : addressCount ≤ count.toNat * size.toNat
  · rw [if_pos hlarge, if_pos hlarge]
    exact .of_ok h
  · rw [if_neg hlarge, if_neg hlarge]
    rw [if_neg hlarge] at hsuits
    rcases hallocated : c.allocate (count * size) with ⟨violation | _ | addr, after⟩
    · exact .of_error _ rfl
    · obtain ⟨after', live', hafter', hpeers⟩ := h.allocate_none hallocated
      rw [hafter']
      exact .of_ok hpeers
    · rw [hallocated] at hsuits
      intro value hok
      have hvalue : value = some addr := eq_of_clearFresh hok
      subst hvalue
      obtain ⟨after', live', hafter', hpeers⟩ := h.allocate_some hallocated (hsuits addr hok)
      rw [hafter']
      exact hpeers.clearFresh addr (count * size) _ hok

/-- Where the strict checker frees a block, its peer frees the same one. -/
theorem free (h : Peers config live c other) (addr : Addr) :
    Follows config (c.free addr) (other.free addr) := by
  by_cases hzero : addr = 0
  · rw [Checker.free, Checker.free, if_pos hzero, if_pos hzero]
    exact .of_ok h
  · rcases htable : c.table.unregister addr with ⟨violation | _, table⟩
    · rw [free_of_error hzero htable]
      exact .of_error _ rfl
    · obtain ⟨b, -, -, htracks, table', htable', htracks'⟩ :=
        h.tracks.unregister_both h.tracks' htable
      rw [free_of_ok hzero htable, free_of_ok hzero htable', h.heap_eq]
      exact .of_ok (h.of_erase htracks htracks' rfl)

/-- Copying and freeing are done alike, so a move is. -/
theorem moveTo (h : Peers config live c other) (addr target : Addr) (len : UInt32) :
    Follows config (c.moveTo addr target len) (other.moveTo addr target len) := by
  rcases c.moveTo_error_or_ok addr target len with
    ⟨violation, herror⟩ | ⟨heap, after, hcopied, hfreed, hmoved⟩
  · exact .of_error _ herror
  · obtain ⟨after', live', hfreed', hpeers⟩ := ((h.of_heaps heap).free addr).exists_eq hfreed
    rw [← h.heap_eq] at hcopied
    rw [hmoved, moveTo_of_ok hcopied hfreed']
    exact .of_ok hpeers

/-- Resizing is done alike, if the region of a new block is suitable. -/
theorem resize (h : Peers config live c other) {addr : Addr} {size : UInt32}
    (hsuits : ∀ target, (c.resize addr size).1 = .ok (some target) →
      Bounds.Suits ⟨target, size⟩ live) :
    Follows config (c.resize addr size) (other.resize addr size) := by
  by_cases hzero : addr = 0
  · rw [Checker.resize, if_pos hzero] at hsuits ⊢
    rw [Checker.resize, if_pos hzero]
    exact h.allocate hsuits
  · by_cases hsize : size = 0
    · rw [Checker.resize, if_neg hzero, if_pos hsize, Checker.resize, if_neg hzero, if_pos hsize]
      rcases hfreed : c.free addr with ⟨violation | _, after⟩
      · exact .of_error _ rfl
      · obtain ⟨after', live', hafter', hpeers⟩ := (h.free addr).exists_eq hfreed
        rw [hafter']
        exact .of_ok hpeers
    · cases hold : (c.table.sizeAt addr).1 with
      | none =>
          refine .of_error (.invalidResize addr) ?_
          rw [Checker.resize, if_neg hzero, if_neg hsize, sizeAt_eq, hold]
      | some old =>
          -- the old size is that of a live region, so the peer finds it, too
          have hold' := (h.tracks.sizeAt_eq h.tracks' addr).symm.trans hold
          have hsized := h.of_tables (h.tracks.sizeAt addr) (h.tracks'.sizeAt addr)
          rcases hallocated : Checker.allocate ⟨(c.table.sizeAt addr).2, c.heap, c.config⟩ size
            with ⟨violation | _ | target, after⟩
          · refine .of_error violation ?_
            rw [Checker.resize, if_neg hzero, if_neg hsize, sizeAt_eq, hold]
            dsimp only
            rw [hallocated]
          · obtain ⟨after', live', hafter', hpeers⟩ := hsized.allocate_none hallocated
            rw [resize_of_none hzero hsize hold hallocated,
              resize_of_none hzero hsize hold' hafter']
            exact .of_ok hpeers
          · rw [resize_of_some hzero hsize hold hallocated] at hsuits ⊢
            intro value hok
            have hvalue : value = some target := eq_of_moveTo hok
            subst hvalue
            obtain ⟨after', live', hafter', hpeers⟩ :=
              hsized.allocate_some hallocated (hsuits target hok)
            rw [resize_of_some hzero hsize hold' hafter']
            exact hpeers.moveTo addr target (min old size) _ hok

/-! ## Pointers to allocations -/

/-- No region starts at the address that stands for the invalid pointer, so there is
nothing there to free. -/
theorem free_invalidAddr (h : Peers config live c other) :
    (c.free invalidAddr).1 = .error (.invalidRemoval invalidAddr) := by
  obtain ⟨after, hafter, -⟩ := h.tracks.unregister_of_none h.start_ne
  rw [free_of_error (by decide) hafter]

/-- The address that stands for the invalid pointer cannot be resized, since no region starts
there. -/
theorem resize_invalidAddr (h : Peers config live c other) (size : UInt32) :
    ∃ violation, (c.resize invalidAddr size).1 = .error violation := by
  by_cases hsize : size = 0
  · refine ⟨.invalidRemoval invalidAddr, ?_⟩
    rw [Checker.resize, if_neg (by decide), if_pos hsize]
    have herror := h.free_invalidAddr
    rcases hfreed : c.free invalidAddr with ⟨violation | _, after⟩
    · rw [hfreed] at herror
      rw [Except.error.inj herror]
    · rw [hfreed] at herror
      cases herror
  · refine ⟨.invalidResize invalidAddr, ?_⟩
    rw [Checker.resize, if_neg (by decide), if_neg hsize, sizeAt_eq,
      h.tracks.sizeAt_of_none h.start_ne]

/-- Freeing through a pointer follows as well: if the pointer is invalid to the strict checker,
that one fails. -/
theorem free_pointer (h : Peers config live c other) (hptr : ptr.Relaxes ptr') :
    Follows config (c.free ptr.toAddr) (other.free ptr'.toAddr) := by
  rcases hptr with rfl | rfl
  · exact .of_error _ h.free_invalidAddr
  · exact h.free _

/-- So does resizing through a pointer. -/
theorem resize_pointer (h : Peers config live c other) (hptr : ptr.Relaxes ptr') {size : UInt32}
    (hsuits : ∀ target, (c.resize ptr.toAddr size).1 = .ok (some target) →
      Bounds.Suits ⟨target, size⟩ live) :
    Follows config (c.resize ptr.toAddr size) (other.resize ptr'.toAddr size) := by
  rcases hptr with rfl | rfl
  · obtain ⟨violation, herror⟩ := h.resize_invalidAddr size
    exact .of_error _ herror
  · exact h.resize hsuits

end Peers

/-- For every placement of the heap both checkers exist, and they start as peers. -/
theorem exists_peers (hplaced : config.checkPlacement = .ok ()) :
    ∃ c other, create (config.under .forbid) = .ok c ∧ create (config.under .permit) = .ok other ∧
      Peers config ∅ c other := by
  obtain ⟨table, htable, -⟩ := Table.exists_reserving config.zones
  have htracks := Table.tracks_of_reserving htable
  have hcreate : ∀ policy, create (config.under policy) =
      .ok ⟨table, Heap.fresh config.heap, config.under policy⟩ := fun policy =>
    create_eq (show (config.under policy).checkPlacement = .ok () from hplaced) htable
  exact ⟨_, _, hcreate .forbid, hcreate .permit, rfl, rfl, htracks, htracks, rfl,
    fun b hb => hb.elim⟩

end Checker

end RegionGuard
