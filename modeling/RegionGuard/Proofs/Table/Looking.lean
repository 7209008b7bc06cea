import RegionGuard.Proofs.Table.Live

/-!
# Looking does not show

A look-up may exchange the regions of an entry and of a node, so what was looked at
decides which node a later removal takes out.  Two tables with the same history of
registrations and removals can therefore differ in all their links.  They do not
differ in anything that can be asked.

Such tables are `Twins`: they track the same live regions, the same slots own a
page, and the pools have the same size.  A registration or a removal turns twins
into twins and tells them apart by nothing, and a read of one of the two leaves
them twins.  So reads can be put into a run anywhere.
-/

namespace RegionGuard

namespace Table

/-- An operation that is used for what it changes. -/
inductive Change
  | register (start : Addr) (size : UInt32)
  | unregister (start : Addr)

namespace Change

/-- The change as an operation of the table. -/
def op : Change → Op
  | register start size => .register start size
  | unregister start => .unregister start

/-- What the change returns. -/
def result (t : Table) : Change → Except Violation Unit
  | register start size => (t.register start size).1
  | unregister start => (t.unregister start).1

end Change

/-- A read either only looks or is a removal that is refused. -/
def Op.Reads (t : Table) (op : Op) : Prop :=
  op.Looks ∨ ∃ start, op = .unregister start ∧ (t.unregister start).1 ≠ .ok ()

/-- A step of a run in which reads have been put between the changes. -/
inductive Step
  | change (c : Change)
  | read (op : Op)

/-- The changes of a run without the reads. -/
def changes : List Step → List Change
  | [] => []
  | .change c :: steps => c :: changes steps
  | .read _ :: steps => changes steps

/-- What was put in is a read when its turn comes. -/
def ReadsOnly : Table → List Step → Prop
  | _, [] => True
  | t, .change c :: steps => ReadsOnly (c.op.run t) steps
  | t, .read op :: steps => op.Reads t ∧ ReadsOnly (op.run t) steps

/-- What each change returns, and the table right after it. -/
def trail : Table → List Step → List (Except Violation Unit × Table)
  | _, [] => []
  | t, .change c :: steps => (c.result t, c.op.run t) :: trail (c.op.run t) steps
  | t, .read op :: steps => trail (op.run t) steps

/-- A change has returned the same in two runs, and the tables after it answer the
same and list the same. -/
structure Alike (x y : Except Violation Unit × Table) : Prop where
  result_eq : x.1 = y.1
  standing_eq : ∀ addr, (x.2.standing addr).1 = (y.2.standing addr).1
  sizeAt_eq : ∀ addr, (x.2.sizeAt addr).1 = (y.2.sizeAt addr).1
  counts_eq : x.2.counts = y.2.counts
  regionsAt_perm : ∀ addr, (x.2.regionsAt addr).Perm (y.2.regionsAt addr)

variable {t other after after' : Table} {zones : List Zone} {live live' : Set Bounds}

/-! ## What the live regions determine -/

/-- They determine what a block lists, up to the order. -/
theorem Tracks.perm (h : t.Tracks zones live) (h' : other.Tracks zones live) (s : Slot) :
    (t.block s).regions.Perm (other.block s).regions := by
  rw [List.perm_ext_iff_of_nodup (h.nodup s) (h'.nodup s)]
  intro b
  exact (h.mem_iff s b).trans (h'.mem_iff s b).symm

/-- They determine how many nodes are in use. -/
theorem Tracks.usedCount_eq (h : t.Tracks zones live) (h' : other.Tracks zones live) :
    t.nodes.usedCount = other.nodes.usedCount := by
  rw [h.linked.usedCount_eq h.lossFree, h'.linked.usedCount_eq h'.lossFree]
  refine Finset.sum_congr rfl fun n _ => ?_
  rw [h.linked.length_nodesAt, h'.linked.length_nodesAt, (h.perm h' _).length_eq]

/-- Tables that track the same regions agree about every address. -/
theorem Tracks.standing_eq (h : t.Tracks zones live) (h' : other.Tracks zones live)
    (addr : Addr) : (t.standing addr).1 = (other.standing addr).1 := by
  by_cases hspans : ∃ b ∈ live, b.Spans addr
  · obtain ⟨b, hb, hspans⟩ := hspans
    rw [h.standing_of_spans hb hspans, h'.standing_of_spans hb hspans]
  · push Not at hspans
    rw [h.standing_of_none hspans, h'.standing_of_none hspans]

theorem Tracks.sizeAt_eq (h : t.Tracks zones live) (h' : other.Tracks zones live)
    (addr : Addr) : (t.sizeAt addr).1 = (other.sizeAt addr).1 := by
  by_cases hstart : ∃ b ∈ live, b.start = addr
  · obtain ⟨b, hb, rfl⟩ := hstart
    rw [h.sizeAt_of_mem hb, h'.sizeAt_of_mem hb]
  · push Not at hstart
    rw [h.sizeAt_of_none hstart, h'.sizeAt_of_none hstart]

/-- They determine what a change returns. -/
theorem Tracks.result_eq (h : t.Tracks zones live) (h' : other.Tracks zones live) (c : Change) :
    c.result t = c.result other := by
  cases c with
  | register start size =>
      rw [Change.result, Change.result, h.fst_register, h'.fst_register]
  | unregister start =>
      rw [Change.result, Change.result]
      by_cases hstart : ∃ b ∈ live, b.start = start
      · rw [h.answers.unregister_ok start hstart, h'.answers.unregister_ok start hstart]
      · rw [h.answers.unregister_error start hstart, h'.answers.unregister_error start hstart]

/-! ## Twins -/

/-- Two tables that can differ in their links only. -/
structure Twins (zones : List Zone) (live : Set Bounds) (t other : Table) : Prop where
  tracks : t.Tracks zones live
  tracks' : other.Tracks zones live
  owned_eq : ∀ d, t.directory.isOwned d = other.directory.isOwned d
  size_eq : t.nodes.nodes.size = other.nodes.nodes.size

theorem Linked.freeCount_le (h : t.Linked) : t.nodes.freeCount ≤ t.nodes.nodes.size := by
  rw [h.freeCount_eq]
  exact (h.leads .free).length_le

/-- Twins have the same counts, as they have taken the same pages and nodes. -/
theorem Twins.counts_eq (h : Twins zones live t other) : t.counts = other.counts := by
  have hpages : t.directory.pages.size = other.directory.pages.size := by
    rw [Directory.size_pages_eq, Directory.size_pages_eq]
    simp only [h.owned_eq]
  have hused := h.tracks.usedCount_eq h.tracks'
  have hfree : t.nodes.freeCount = other.nodes.freeCount := by
    have hle := h.tracks.linked.freeCount_le
    have hle' := h.tracks'.linked.freeCount_le
    have hsize := h.size_eq
    unfold NodePool.usedCount at hused
    omega
  rw [counts, counts, hpages, hused, hfree]

/-- To a user they look the same after the same result. -/
theorem Twins.alike (h : Twins zones live t other) {result result' : Except Violation Unit}
    (hresult : result = result') : Alike (result, t) (result', other) where
  result_eq := hresult
  standing_eq := h.tracks.standing_eq h.tracks'
  sizeAt_eq := h.tracks.sizeAt_eq h.tracks'
  counts_eq := h.counts_eq
  regionsAt_perm addr := by
    rw [← regions_block, ← regions_block]
    exact h.tracks.perm h.tracks' _

/-- Twins that are charged for the same slots stay twins: as they have used as many
nodes before and use as many afterwards, their pools have grown alike. -/
theorem Twins.of_charges (h : Twins zones live t other) {dirs : Set (Fin directorySlots)}
    {most : Nat} (hcharges : t.Charges after dirs most) (hcharges' : other.Charges after' dirs most)
    (htracks : after.Tracks zones live') (htracks' : after'.Tracks zones live') :
    Twins zones live' after after' where
  tracks := htracks
  tracks' := htracks'
  owned_eq d := by
    rw [Bool.eq_iff_iff, hcharges.owned_iff, hcharges'.owned_iff, h.owned_eq]
  size_eq := by
    rw [hcharges.size_eq, hcharges'.size_eq, h.size_eq, htracks.usedCount_eq htracks']

/-- Operations that take nothing leave twins, if they leave the same regions. -/
theorem Twins.of_frugal (h : Twins zones live t other) (hfrugal : t.Frugal after)
    (hfrugal' : other.Frugal after') (htracks : after.Tracks zones live')
    (htracks' : after'.Tracks zones live') : Twins zones live' after after' where
  tracks := htracks
  tracks' := htracks'
  owned_eq d := by rw [hfrugal.owned_eq, hfrugal'.owned_eq, h.owned_eq]
  size_eq := by rw [hfrugal.size_eq, hfrugal'.size_eq, h.size_eq]

/-- A change that returns the same in two tables is permitted in both or in none, and
does the same to the live regions. -/
theorem Change.live_eq {c : Change} (hresult : c.result t = c.result other) (live : Set Bounds) :
    c.op.live other live = c.op.live t live ∧ (c.op.Fair t live → c.op.Fair other live) := by
  cases c with
  | register start size =>
      have hsame : (t.register start size).1 = (other.register start size).1 := hresult
      refine ⟨by simp only [op, Op.live, hsame], ?_⟩
      intro hfair hok
      exact hfair (hsame.trans hok)
  | unregister start =>
      have hsame : (t.unregister start).1 = (other.unregister start).1 := hresult
      exact ⟨by simp only [op, Op.live, hsame], fun _ => trivial⟩

/-- What an accepted registration takes is decided by its arguments. -/
theorem Tracks.charges_register (h : t.Tracks zones live) {start : Addr} {size : UInt32}
    (hstart : start ≠ 0) (hfits : start.toNat + size.toNat < addressCount) :
    t.Charges (t.register start size).2 (Bounds.dirs ⟨start, size⟩) 2 := by
  obtain ⟨after, hafter, hregisters⟩ := h.linked.register hstart hfits h.room
  rw [hafter]
  exact hregisters.charges

/-- A change leaves twins twins. -/
theorem Twins.change (h : Twins zones live t other) (c : Change) (hfair : c.op.Fair t live) :
    Twins zones (c.op.live t live) (c.op.run t) (c.op.run other) := by
  obtain ⟨hlive, hfair'⟩ := Change.live_eq (h.tracks.result_eq h.tracks' c) live
  have htracks := h.tracks.step c.op hfair
  have htracks' := h.tracks'.step c.op (hfair' hfair)
  rw [hlive] at htracks'
  cases c with
  | register start size =>
      by_cases hrefused : start = 0 ∨ addressCount ≤ start.toNat + size.toNat
      · have hstays : ∀ t : Table, t.Frugal (t.register start size).2 := by
          intro t
          rw [register_error hrefused]
          exact .refl t
        exact h.of_frugal (hstays t) (hstays other) htracks htracks'
      · obtain ⟨hstart, hfits⟩ := not_or.mp hrefused
        exact h.of_charges (h.tracks.charges_register hstart (Nat.lt_of_not_le hfits))
          (h.tracks'.charges_register hstart (Nat.lt_of_not_le hfits)) htracks htracks'
  | unregister start =>
      exact h.of_frugal (t.frugal_unregister start) (other.frugal_unregister start) htracks htracks'

/-- A read takes nothing. -/
theorem Op.Reads.frugal {op : Op} (hreads : op.Reads t) : t.Frugal (op.run t) := by
  rcases hreads with hlooks | ⟨start, rfl, -⟩
  · rcases op.run_of_looks t hlooks with hsame | ⟨s, addr, hfind⟩
    · rw [hsame]
      exact .refl t
    · rw [hfind]
      exact t.frugal_find s addr
  · exact t.frugal_unregister start

/-- A removal that is refused only looks, like the questions that a user can ask. -/
theorem Tracks.reads (h : t.Tracks zones live) {op : Op} (hreads : op.Reads t) :
    (op.run t).Tracks zones live := by
  rcases hreads with hlooks | ⟨start, rfl, hrefused⟩
  · exact h.looks op hlooks
  · by_cases hstart : ∃ b ∈ live, b.start = start
    · exact absurd (h.answers.unregister_ok start hstart) hrefused
    · push Not at hstart
      obtain ⟨after, hafter, htracks⟩ := h.unregister_of_none hstart
      rw [Op.run, hafter]
      exact htracks

/-- A read of one of the twins does not show. -/
theorem Twins.read (h : Twins zones live t other) {op : Op} (hreads : op.Reads other) :
    Twins zones live t (op.run other) :=
  h.of_frugal (.refl t) hreads.frugal h.tracks (h.tracks'.reads hreads)

/-! ## Runs -/

/-- Twins leave the same trail, whether or not reads are put in. -/
theorem Twins.trail_alike (h : Twins zones live t other) {steps : List Step}
    {last : Table × Set Bounds} (hrun : system.Run (t, live) ((changes steps).map Change.op) last)
    (hreads : ReadsOnly other steps) :
    List.Forall₂ Alike (trail t ((changes steps).map .change)) (trail other steps) := by
  induction steps generalizing t other live with
  | nil => exact .nil
  | cons step steps ih =>
      cases step with
      | change c =>
          cases hrun with
          | cons permitted tail =>
              have hnext := h.change c permitted
              exact .cons (hnext.alike (h.tracks.result_eq h.tracks' c)) (ih hnext tail hreads)
      | read op => exact ih (h.read hreads.1) hrun hreads.2

/-- Reads that are put into a run of changes do not show: each change returns the
same, and after it the tables answer the same and have the same counts. -/
theorem trail_alike_of_reserving {fresh : Table} (hfresh : reserving zones = .ok fresh)
    {steps : List Step} (hreads : ReadsOnly fresh steps) {last : Table × Set Bounds}
    (hrun : system.Run (fresh, ∅) ((changes steps).map Change.op) last) :
    List.Forall₂ Alike (trail fresh ((changes steps).map .change)) (trail fresh steps) := by
  have htracks := tracks_of_reserving hfresh
  have htwins : Twins zones ∅ fresh fresh := ⟨htracks, htracks, fun _ => rfl, rfl⟩
  exact htwins.trail_alike hrun hreads

/-- Two regions share a block.  Looking at the one behind brings it to the front, so
that its removal takes it out of the entry and not out of a node. -/
theorem trail_alike_of_pair :
    ∃ fresh, reserving [⟨0x2000, 0x200⟩] = .ok fresh ∧
      List.Forall₂ Alike
        (trail fresh [.change (.register 0x1000 16), .change (.register 0x1020 0x400),
          .change (.unregister 0x1000)])
        (trail fresh [.change (.register 0x1000 16), .change (.register 0x1020 0x400),
          .read (.lookup 0x1005), .read (.unregister 0x1005), .change (.unregister 0x1000)]) := by
  obtain ⟨fresh, hfresh, -⟩ := exists_reserving [⟨0x2000, 0x200⟩]
  refine ⟨fresh, hfresh, ?_⟩
  have hstart := tracks_of_reserving hfresh
  have hfair : (Op.register 0x1000 16).Fair fresh ∅ := fun _ b hb => hb.elim
  have hone := hstart.step (.register 0x1000 16) hfair
  have hfair' : (Op.register 0x1020 0x400).Fair ((Op.register 0x1000 16).run fresh)
      ((Op.register 0x1000 16).live fresh ∅) := by
    rw [hstart.live_register (by decide) (by decide), insert_empty_eq]
    rintro - b rfl addr ⟨⟨-, hbelow⟩, habove, -⟩
    have hbelow' : addr.toNat ≤ 4096 + 16 := hbelow
    have habove' : 4128 ≤ addr.toNat := habove
    omega
  have htwo := hone.step (.register 0x1020 0x400) hfair'
  rw [hone.live_register (by decide) (by decide), hstart.live_register (by decide) (by decide)]
    at htwo
  have hrefused := (htwo.lookup 0x1005).answers.unregister_error 0x1005 (by simp)
  have hreads : ReadsOnly fresh [.change (.register 0x1000 16),
      .change (.register 0x1020 0x400), .read (.lookup 0x1005), .read (.unregister 0x1005),
      .change (.unregister 0x1000)] := by
    refine ⟨.inl trivial, .inr ⟨0x1005, rfl, ?_⟩, trivial⟩
    intro hok
    cases hrefused.symm.trans hok
  exact trail_alike_of_reserving hfresh hreads
    (.cons hfair (.cons hfair' (.cons trivial (.nil _))))

end Table

end RegionGuard
