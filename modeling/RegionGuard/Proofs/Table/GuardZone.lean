import RegionGuard.Proofs.Table.Access

/-!
# The zone of the invalid pointer

`guardZone` is reserved in every table, whatever other zones the table was made
with, and no operation changes what the blocks of the zone fall back to.  But a
registration does not ask for zones.  It is accepted inside this zone, too, and from
below into it.  So an address of the zone is forbidden exactly as long as no live
region spans it, and then every check by way of it fails.  Where nothing is ever
registered in the zone, the zone stays forbidden.
-/

namespace RegionGuard

/-- No address of the zone belongs to the region. -/
def Zone.ClearOf (z : Zone) (b : Bounds) : Prop :=
  ∀ addr, z.Has addr → ¬ b.Spans addr

/-- The zone consists of whole blocks and is reserved in every table. -/
theorem reserved_of_guardZone (zones : List Zone) {addr : Addr} (haddr : guardZone.Has addr) :
    Reserved zones (Slot.ofAddr addr) := by
  obtain ⟨hfrom, -⟩ := haddr
  have hlast : addr.toNat < 4294967296 := addr.toNat_lt
  have hfrom' : 4294443008 ≤ addr.toNat := hfrom
  refine ⟨guardZone, List.mem_cons_self, ?_⟩
  rw [Zone.Fills, Slot.number_ofAddr]
  show 4294443008 ≤ addr.toNat / 256 * 256 ∧ (addr.toNat / 256 + 1) * 256 ≤ 4294443008 + 524288
  omega

namespace Table

/-- The operation registers nothing that has an address of the zone. -/
def Op.KeepsOut (z : Zone) : Op → Prop
  | .register start size => z.ClearOf ⟨start, size⟩
  | _ => True

/-- Only the live regions are an exception from a zone being forbidden. -/
structure Guards (t : Table) (z : Zone) (live : Set Bounds) : Prop where
  /-- An address of the zone is forbidden while no live region spans it. -/
  forbidden_iff : ∀ addr, z.Has addr →
    ((t.standing addr).1 = .forbidden ↔ ∀ b ∈ live, ¬ b.Spans addr)
  /-- A check by way of such an address is accepted within its live region. -/
  locate_eq_ok_iff : ∀ addr, z.Has addr → ∀ offset width policy target,
    (t.locate (.valid addr) offset width policy).1 = .ok target ↔
      addr + offset.toUInt32 = target ∧ ∃ b ∈ live, b.Spans addr ∧
        b.start.toNat ≤ target.toNat ∧
        target.toNat + width.bytes.toNat ≤ b.start.toNat + b.size.toNat
  /-- Without a live region the check fails under both policies. -/
  locate_eq_error : ∀ addr, z.Has addr → (∀ b ∈ live, ¬ b.Spans addr) →
    ∀ offset width policy, (t.locate (.valid addr) offset width policy).1 =
      .error (.invalidAccess addr offset width.bytes)

variable {t : Table} {zones : List Zone} {live : Set Bounds}

/-- In a reserved block only live regions are accepted. -/
theorem Tracks.accepts_iff_of_reserved (h : t.Tracks zones live) {addr : Addr}
    (hreserved : Reserved zones (Slot.ofAddr addr)) (policy : UntrackedPolicy) (width : Width)
    (target : Addr) :
    t.Accepts live policy addr width target ↔
      ∃ b ∈ live, b.Spans addr ∧ b.start.toNat ≤ target.toNat ∧
        target.toNat + width.bytes.toNat ≤ b.start.toNat + b.size.toNat := by
  have hfallback : (t.entry (Slot.ofAddr addr)).fallback ≠ Bounds.untracked :=
    fun huntracked => (h.fallback_eq_untracked_iff _).mp huntracked hreserved
  constructor
  · intro haccepts
    rcases haccepts with hregion | ⟨-, huntracked, -⟩
    · exact hregion
    · exact absurd huntracked hfallback
  · exact .inl

/-- What a table that tracks the live regions does with the guard zone. -/
theorem Tracks.guards (h : t.Tracks zones live) : t.Guards guardZone live where
  forbidden_iff addr haddr := by
    have hreserved := reserved_of_guardZone zones haddr
    rw [h.answers.forbidden_iff]
    exact and_iff_left hreserved
  locate_eq_ok_iff addr haddr offset width policy target := by
    rw [h.locate_eq_ok_iff, h.accepts_iff_of_reserved (reserved_of_guardZone zones haddr)]
  locate_eq_error addr haddr hno offset width policy := by
    have hrejects : Rejects (t.boundsUnder addr policy).1 addr offset.toUInt32 width := by
      rw [h.rejects_iff, h.accepts_iff_of_reserved (reserved_of_guardZone zones haddr)]
      intro haccepted
      obtain ⟨b, hb, hspans, -⟩ := haccepted
      exact hno b hb hspans
    rw [locate_valid, if_pos hrejects]

/-- What keeps out of a zone does not bring a region into it. -/
theorem Op.KeepsOut.clearOf {z : Zone} {op : Op} (h : op.KeepsOut z)
    (hclear : ∀ b ∈ live, z.ClearOf b) : ∀ b ∈ op.live t live, z.ClearOf b := by
  cases op with
  | register start size =>
      cases hresult : (t.register start size).1 with
      | error _ =>
          rw [Op.live, hresult]
          exact hclear
      | ok _ =>
          rw [Op.live, hresult]
          intro b hb
          rcases Set.mem_insert_iff.mp hb with rfl | hb
          · exact h
          · exact hclear b hb
  | unregister start =>
      cases hresult : (t.unregister start).1 with
      | error _ =>
          rw [Op.live, hresult]
          exact hclear
      | ok _ =>
          rw [Op.live, hresult]
          intro b hb
          exact hclear b hb.1
  | lookup | find | standing | sizeAt | advance | locate => exact hclear

/-- So a run that keeps out of a clear zone ends with the zone clear. -/
theorem clearOf_of_run {z : Zone} {ops : List Op} {after : Table × Set Bounds}
    (hrun : (system.within fun _ op => op.KeepsOut z).Run (t, live) ops after)
    (hclear : ∀ b ∈ live, z.ClearOf b) : ∀ b ∈ after.2, z.ClearOf b := by
  refine hrun.invariant (fun state => ∀ b ∈ state.2, z.ClearOf b) ?_ hclear
  intro state op hpermitted hstate
  exact hpermitted.2.clearOf hstate

/-- Wherever fair use takes a table, the zone is forbidden but for the live regions,
and it is forbidden altogether after any further run that keeps out of it. -/
theorem guards_of_reached (h : Reached zones t live) :
    t.Guards guardZone live ∧
      ∀ ops after, (system.within fun _ op => op.KeepsOut guardZone).Run (t, live) ops after →
        (∀ b ∈ live, guardZone.ClearOf b) →
        ∀ addr, guardZone.Has addr → (after.1.standing addr).1 = .forbidden ∧
          ∀ offset width policy, (after.1.locate (.valid addr) offset width policy).1 =
            .error (.invalidAccess addr offset width.bytes) := by
  refine ⟨h.tracks.guards, ?_⟩
  intro ops after hrun hclear addr haddr
  obtain ⟨fresh, before, hfresh, hbefore⟩ := h
  have hreached : Reached zones after.1 after.2 :=
    ⟨fresh, before ++ ops, hfresh, hbefore.append hrun.of_within⟩
  have hguards := hreached.tracks.guards
  have hno : ∀ b ∈ after.2, ¬ b.Spans addr := fun b hb =>
    clearOf_of_run hrun hclear b hb addr haddr
  exact ⟨(hguards.forbidden_iff addr haddr).mpr hno, hguards.locate_eq_error addr haddr hno⟩

/-- A region that runs into the zone from below opens exactly the part it spans. -/
theorem guards_of_reached_below :
    ∃ t, Reached [] t {⟨0xfff7fff0, 0x20⟩} ∧
      (t.standing 0xfff80010).1 ≠ .forbidden ∧
      (t.standing 0xfff80011).1 = .forbidden ∧
      (t.locate (.valid 0xfff8000f) 0 .byte .forbid).1 = .ok 0xfff8000f ∧
      (t.locate (.valid invalidAddr) 0 .byte .permit).1 =
        .error (.invalidAccess invalidAddr 0 1) := by
  obtain ⟨t, ht⟩ := @exists_reached_single [] 0xfff7fff0 0x20 (by decide) (by decide)
  obtain ⟨hguards, -⟩ := guards_of_reached ht
  refine ⟨t, ht, ?_, ?_, ?_, ?_⟩
  · intro hforbidden
    rw [hguards.forbidden_iff _ (by decide)] at hforbidden
    exact hforbidden _ (Set.mem_singleton _) (by decide)
  · rw [hguards.forbidden_iff _ (by decide)]
    intro b hb
    obtain rfl := hb
    decide
  · rw [hguards.locate_eq_ok_iff _ (by decide)]
    exact ⟨by decide, _, Set.mem_singleton _, by decide, by decide, by decide⟩
  · refine hguards.locate_eq_error _ (by decide) ?_ _ _ _
    intro b hb
    obtain rfl := hb
    decide

/-- A region registered inside the zone makes the address that stands for the invalid
pointer one that may be accessed, and an access there succeeds even under a strict
policy. -/
theorem locate_of_reached_inside :
    ∃ t, Reached [] t {⟨0xfffffff0, 15⟩} ∧ guardZone.Has invalidAddr ∧
      (t.standing invalidAddr).1 = .region ⟨0xfffffff0, 15⟩ ∧
      (t.locate (.valid invalidAddr) 0 .byte .forbid).1 = .ok invalidAddr := by
  obtain ⟨t, ht⟩ := @exists_reached_single [] 0xfffffff0 15 (by decide) (by decide)
  have hmem := Set.mem_singleton (⟨0xfffffff0, 15⟩ : Bounds)
  refine ⟨t, ht, by decide, ht.tracks.standing_of_spans hmem (by decide), ?_⟩
  rw [ht.tracks.guards.locate_eq_ok_iff _ (by decide)]
  exact ⟨by decide, _, hmem, by decide, by decide, by decide⟩

end Table

end RegionGuard
