import RegionGuard.Proofs.Table.Access
import RegionGuard.Proofs.Table.Blocks

/-!
# Looking a second time

A look-up may exchange two regions of a block, and brings what it has found to the front.
So the same look-up finds the same again, and a check that is repeated is answered as
before.  The regions that are listed stay the same up to the order.

Nothing is promised about the regions for this.  It holds of every table that calls have
led to, also if regions overlapped or identifiers ran out on the way, and in particular
after fair use.
-/

namespace RegionGuard

namespace Block

/-- A look-up is repeated with the same answer and changes nothing any more. -/
theorem find_find (b : Block) (addr : Addr) :
    (b.find addr).2.find addr = b.find addr := by
  rcases b.find_cases addr with ⟨hno, hfind⟩ | ⟨head, others, hregions, hhead, hfind⟩ |
    ⟨head, front, found, back, -, -, -, hfound, hfind⟩
  · rw [hfind]
    exact hfind
  · rw [hfind]
    exact hfind
  · rw [hfind]
    exact find_of_head hfound

end Block

namespace Table

variable {t : Table} {zones : List Zone} {live : Set Bounds}

/-! ## The same check again -/

/-- A search finds the same region again, now in front. -/
theorem Linked.fst_find_find (h : t.Linked) (s : Slot) (addr : Addr) :
    ((t.find s addr).2.find s addr).1 = (t.find s addr).1 := by
  obtain ⟨hfound, hbecomes⟩ := h.find s addr
  rw [(hbecomes.linked.find s addr).1, hbecomes.block_eq, Function.update_self, hfound,
    Block.find_find]

/-- A check leaves behind what a look-up of its pointer leaves. -/
theorem snd_locate_valid (t : Table) (addr : Addr) (offset : Int32) (width : Width)
    (policy : UntrackedPolicy) :
    (t.locate (.valid addr) offset width policy).2 = (t.lookup addr).2 := by
  rw [← snd_boundsUnder t addr policy]
  unfold locate
  dsimp only
  split <;> rfl

/-- So a check has the same result when it is repeated. -/
theorem Linked.fst_locate_locate (h : t.Linked) (ptr : Pointer) (offset : Int32) (width : Width)
    (policy : UntrackedPolicy) :
    ((t.locate ptr offset width policy).2.locate ptr offset width policy).1 =
      (t.locate ptr offset width policy).1 := by
  cases ptr with
  | invalid => rfl
  | valid addr =>
      have hagain : ((t.lookup addr).2.lookup addr).1 = (t.lookup addr).1 :=
        h.fst_find_find (Slot.ofAddr addr) addr
      rw [snd_locate_valid, locate_valid, locate_valid, fst_boundsUnder, fst_boundsUnder, hagain]

/-- A search changes no list but its order. -/
theorem Linked.liveRegions_find (h : t.Linked) (s : Slot) (addr : Addr) :
    (t.find s addr).2.liveRegions = t.liveRegions := by
  have hblock := (h.find s addr).2.block_eq
  have hmem : ∀ (other : Slot) (b : Bounds),
      b ∈ ((t.find s addr).2.block other).regions ↔ b ∈ (t.block other).regions := by
    intro other b
    rw [hblock]
    by_cases hother : other = s
    · subst hother
      rw [Function.update_self, (Block.find_perm _ addr).mem_iff]
    · rw [Function.update_of_ne hother]
  ext b
  simp only [liveRegions, ← regions_block, Set.mem_ofPred_eq, hmem]

theorem Linked.liveRegions_locate (h : t.Linked) (ptr : Pointer) (offset : Int32) (width : Width)
    (policy : UntrackedPolicy) :
    (t.locate ptr offset width policy).2.liveRegions = t.liveRegions := by
  cases ptr with
  | invalid => rfl
  | valid addr =>
      rw [snd_locate_valid]
      exact h.liveRegions_find _ addr

/-! ## Tables in use -/

/-- A table that calls have led to. -/
def Served (t : Table) : Prop :=
  ∃ zones fresh calls, reserving zones = .ok fresh ∧ (serve Table.reply fresh calls).2 = t

/-- The last call is served in the state that the others have led to. -/
theorem serve_snoc {State : Type} (reply : State → Call → Reply × State) (state : State)
    (calls : List Call) (call : Call) :
    (serve reply state (calls ++ [call])).2 = (reply (serve reply state calls).2 call).2 := by
  induction calls generalizing state with
  | nil => rfl
  | cons first calls ih => exact ih _

/-- One more reply leads to a state of use. -/
theorem Served.reply (h : t.Served) (call : Call) : (t.reply call).2.Served := by
  obtain ⟨zones, fresh, calls, hfresh, rfl⟩ := h
  exact ⟨zones, fresh, calls ++ [call], hfresh, serve_snoc _ _ _ _⟩

/-- Any reply leaves good order, exhausted or not. -/
theorem Linked.linked_reply (h : t.Linked) (call : Call) : (t.reply call).2.Linked := by
  cases call with
  | register start size => exact h.linked_register start size
  | unregister start => exact (h.unregister start).2.1
  | lookup addr => exact (h.find (Slot.ofAddr addr) addr).2.linked
  | find s addr => exact (h.find s addr).2.linked
  | regionsAt | listing => exact h

theorem Linked.serve (h : t.Linked) (calls : List Call) :
    (RegionGuard.serve Table.reply t calls).2.Linked := by
  induction calls generalizing t with
  | nil => exact h
  | cons call calls ih => exact ih (h.linked_reply call)

/-- A table in use is in good order, whatever was asked of it. -/
theorem Served.linked (h : t.Served) : t.Linked := by
  obtain ⟨zones, fresh, calls, hfresh, rfl⟩ := h
  obtain ⟨fresh', hfresh', -, hlinked, -⟩ := exists_linked_reserving zones
  obtain rfl : fresh' = fresh := Except.ok.inj (hfresh'.symm.trans hfresh)
  exact hlinked.serve calls

/-- Fair use consists of calls. -/
theorem Reached.served (h : Reached zones t live) : t.Served := by
  obtain ⟨fresh, ops, hfresh, hrun⟩ := h
  refine hrun.invariant (fun state => state.1.Served) ?_ ⟨zones, fresh, [], hfresh, rfl⟩
  rintro ⟨t, live⟩ op - hserved
  show (op.run t).Served
  by_cases hlooks : op.Looks
  · rcases op.run_of_looks t hlooks with hsame | ⟨s, addr, hfind⟩
    · rw [hsame]
      exact hserved
    · rw [hfind]
      exact hserved.reply (.find s addr)
  · cases op with
    | register start size => exact hserved.reply (.register start size)
    | unregister start => exact hserved.reply (.unregister start)
    | lookup | find | standing | sizeAt | advance | locate => exact absurd trivial hlooks

end Table

end RegionGuard
