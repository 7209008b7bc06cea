import RegionGuard.Proofs.Table.Footprint

/-!
# What a look-up, an entering and a removal do to one block

Each of the three changes one block, and what it does to the list of this block
is what the operation of the same purpose on lists does.  Entering gives the block
a page of its own and may need a node; the other two always succeed and take
nothing.
-/

namespace RegionGuard

namespace Directory

/-- On an owned page a change reaches the entry of its own block and no other. -/
theorem entry_modifyEntry_of_owned {dir : Directory} {s : Slot} (howned : dir.isOwned s.dir = true)
    (change : Entry → Entry) (s' : Slot) :
    (dir.modifyEntry s change).entry s' =
      if s = s' then change (dir.entry s) else dir.entry s' := by
  rw [entry_modifyEntry]
  by_cases hs : s = s'
  · subst hs
    rw [if_pos ⟨howned, rfl⟩, if_pos rfl]
  · rw [if_neg fun hc => hs hc.2, if_neg hs]

/-- Entries on a shared page lead nowhere and hold nothing. -/
theorem template_of_shared {dir : Directory} {s : Slot} (hshared : ¬ dir.isOwned s.dir = true) :
    (dir.entry s).next = none ∧ (dir.entry s).bounds.isVacant = true := by
  rw [entry_of_shared (Bool.eq_false_iff.mpr hshared)]
  cases dir.slots[s.dir] <;> exact ⟨rfl, rfl⟩

end Directory

theorem Entry.isVacant_vacate (e : Entry) : e.vacate.bounds.isVacant = true := by
  rcases e with ⟨_, _, _ | _⟩ <;> rfl

namespace Table

variable {t : Table} {s : Slot}

/-- An entry that leads to a node is not on a shared page. -/
theorem isOwned_of_next {id : NodeId} (hnext : (t.entry s).next = some id) :
    t.directory.isOwned s.dir = true := by
  by_contra hshared
  have hnone : (t.entry s).next = none := (Directory.template_of_shared hshared).1
  rw [hnone] at hnext
  cases hnext

theorem isOwned_of_held (hheld : (t.entry s).bounds.isVacant = false) :
    t.directory.isOwned s.dir = true := by
  by_contra hshared
  have hvacant : (t.entry s).bounds.isVacant = true := (Directory.template_of_shared hshared).2
  rw [hvacant] at hheld
  cases hheld

/-- A block with a node behind its entry has a region in the entry. -/
theorem Linked.held_of_next (h : t.Linked) {id : NodeId} (hnext : (t.entry s).next = some id) :
    (t.entry s).bounds.isVacant = false := by
  by_contra hvacant
  have hnone := (h.vacant s (Bool.not_eq_false _ ▸ hvacant)).2
  rw [hnone] at hnext
  cases hnext

/-- Nodes behind a block are reached through its entry. -/
theorem Linked.exists_next (h : t.Linked) {id : NodeId} (hid : id ∈ t.nodesAt (.behind s)) :
    ∃ first, (t.entry s).next = some first := by
  cases hnext : (t.entry s).next with
  | none => simp [h.nodesAt_of_next hnext] at hid
  | some first => exact ⟨first, rfl⟩

/-- A node is in its chain only once. -/
theorem Linked.notMem_of_split (h : t.Linked) {place : NodePlace} {front back : List NodeId}
    {id : NodeId} (hsplit : t.nodesAt place = front ++ id :: back) : id ∉ front ++ back := by
  have hnodup := (h.leads place).nodup
  rw [hsplit] at hnodup
  exact (List.nodup_cons.mp (List.nodup_middle.mp hnodup)).1

/-! ## Look-up -/

/-- A search answers with the region in the entry, or with the first one behind it that has the
address, which changes places with the former, or with the sentinel. -/
theorem find_eq (t : Table) (s : Slot) (addr : Addr) :
    t.find s addr =
      if (t.entry s).bounds.contains addr then ((t.entry s).bounds, t)
      else
        match t.nodes.find? (t.entry s).next (·.contains addr) with
        | none => ((t.entry s).fallback, t)
        | some (_, id) =>
          ((t.nodes.get id).bounds,
            ⟨t.directory.modifyEntry s fun e => { e with bounds := (t.nodes.get id).bounds },
              t.nodes.modify id fun n => { n with bounds := (t.entry s).bounds }⟩) := rfl

/-- Exchanging the regions of an entry and of a node behind it. -/
def exchange (t : Table) (s : Slot) (id : NodeId) : Table :=
  ⟨t.directory.modifyEntry s fun e => { e with bounds := (t.nodes.get id).bounds },
    t.nodes.modify id fun n => { n with bounds := (t.entry s).bounds }⟩

/-- The exchange puts another region into the entry of the block. -/
theorem entry_exchange {first : NodeId} (hnext : (t.entry s).next = some first) (id : NodeId)
    (s' : Slot) :
    (t.exchange s id).entry s' =
      if s = s' then { t.entry s with bounds := (t.nodes.get id).bounds } else t.entry s' :=
  Directory.entry_modifyEntry_of_owned (isOwned_of_next hnext) _ s'

/-- An exchange leaves the links as they are. -/
theorem Linked.rewires_exchange (h : t.Linked) {id : NodeId}
    (hid : id ∈ t.nodesAt (.behind s)) :
    t.Rewires (t.exchange s id) s (t.nodesAt (.behind s)) (t.nodesAt .free) := by
  obtain ⟨first, hnext⟩ := h.exists_next hid
  have hentry := entry_exchange hnext id
  have hlt := (h.leads _).lt id hid
  have hget : ∀ other, other ≠ id → (t.exchange s id).nodes.get other = t.nodes.get other :=
    fun other hne => NodePool.get_modify_of_ne _ _ hne
  have hsize : (t.exchange s id).nodes.nodes.size = t.nodes.nodes.size := by simp [exchange]
  refine
    { entry_other := fun s' hs => by rw [hentry, if_neg (Ne.symm hs)]
      size_le := hsize.ge
      get_other := fun other _ hbehind _ => hget other fun he => hbehind (he ▸ hid)
      leads_behind := ?_
      leads_free := (h.leads .free).modify id fun _ => rfl
      freeCount_eq := h.freeCount_eq
      moved := fun other => ?_
      apart := fun other hb hf => by cases h.apart hb hf
      vacant := ?_
      occupied := ?_ }
  · rw [hentry, if_pos rfl]
    exact (h.leads (.behind s)).modify id fun _ => rfl
  · rw [hsize]
    have : ¬ (t.nodes.nodes.size ≤ other.index ∧ other.index < t.nodes.nodes.size) := by omega
    tauto
  · rw [hentry, if_pos rfl]
    intro hvacant
    rw [h.occupied s id hid] at hvacant
    cases hvacant
  · intro other hother
    by_cases hne : other = id
    · subst hne
      rw [exchange, NodePool.get_modify_self _ _ hlt]
      exact h.held_of_next hnext
    · rw [hget other hne]
      exact h.occupied s other hother

/-- In the list of the block, the region found and the one in front change places. -/
theorem Linked.block_exchange (h : t.Linked) {front back : List NodeId} {id : NodeId}
    (hsplit : t.nodesAt (.behind s) = front ++ id :: back) :
    (t.exchange s id).block s = ⟨(t.nodes.get id).bounds ::
      (front.map (fun id => (t.nodes.get id).bounds) ++ (t.entry s).bounds ::
        back.map fun id => (t.nodes.get id).bounds), (t.entry s).isForbidden⟩ := by
  have hid : id ∈ t.nodesAt (.behind s) := by simp [hsplit]
  have r := h.rewires_exchange hid
  have hentry : (t.exchange s id).entry s =
      { t.entry s with bounds := (t.nodes.get id).bounds } := by
    obtain ⟨first, hnext⟩ := h.exists_next hid
    rw [entry_exchange hnext, if_pos rfl]
  have hheld : ((t.exchange s id).entry s).bounds.isVacant = false := by
    rw [hentry]
    exact h.occupied s id hid
  have hout := h.notMem_of_split hsplit
  have hself : ((t.exchange s id).nodes.get id).bounds = (t.entry s).bounds := by
    rw [exchange, NodePool.get_modify_self _ _ ((h.leads _).lt id hid)]
  have hother : ∀ x, x ∈ front ∨ x ∈ back →
      ((t.exchange s id).nodes.get x).bounds = (t.nodes.get x).bounds := by
    intro x hx
    have hne : x ≠ id := by
      rintro rfl
      exact hout (List.mem_append.mpr hx)
    rw [exchange, NodePool.get_modify_of_ne _ _ hne]
  rw [r.block_self hheld, hsplit, hentry, List.map_append, List.map_cons,
    hself, List.map_congr_left fun x hx => hother x (.inl hx),
    List.map_congr_left fun x hx => hother x (.inr hx)]

/-- A look-up answers as on the list, and does to the block what it does there. -/
theorem Linked.find (h : t.Linked) (s : Slot) (addr : Addr) :
    (t.find s addr).1 = ((t.block s).find addr).1 ∧
    t.Becomes (t.find s addr).2 (Function.update t.block s ((t.block s).find addr).2) := by
  have hstay : t.Becomes t (Function.update t.block s (t.block s)) := by
    rw [Function.update_eq_self]
    exact .refl h
  rw [find_eq]
  cases hheld : (t.entry s).bounds.isVacant with
  | true =>
      obtain ⟨hfallback, hnext⟩ := h.vacant s hheld
      have hno : ∀ r ∈ (t.block s).regions, r.contains addr = false := by
        simp [h.block_of_vacant hheld]
      have hanswer : (t.entry s).bounds = (t.block s).fallback := hfallback
      have hnone : t.nodes.find? none (·.contains addr) = none :=
        NodePool.Leads.nil.search_eq_none (by simp) _ _
      rw [Block.find_of_none hno, hnext, hnone, hanswer]
      split <;> exact ⟨rfl, hstay⟩
  | false =>
      have hblock := block_of_held hheld
      by_cases hhead : (t.entry s).bounds.contains addr = true
      · rw [if_pos hhead]
        rw [hblock, Block.find_of_head hhead]
        rw [hblock] at hstay
        exact ⟨rfl, hstay⟩
      · have hhead' := Bool.eq_false_iff.mpr hhead
        rw [if_neg hhead]
        rcases (h.leads (.behind s)).find?_cases (·.contains addr) with
          ⟨hno, hfind⟩ | ⟨front, id, back, hsplit, hfront, hid, hfind⟩
        · rw [firstNode] at hfind
          have hno' : ∀ r ∈ (t.block s).regions, r.contains addr = false := by
            rw [hblock]
            simpa [hhead'] using hno
          rw [hfind, Block.find_of_none hno']
          exact ⟨rfl, hstay⟩
        · rw [firstNode] at hfind
          rw [hfind]
          have hmem : id ∈ t.nodesAt (.behind s) := by simp [hsplit]
          have hregions : t.block s = ⟨(t.entry s).bounds ::
              (front.map (fun id => (t.nodes.get id).bounds) ++ (t.nodes.get id).bounds ::
                back.map fun id => (t.nodes.get id).bounds), (t.entry s).isForbidden⟩ := by
            rw [hblock, hsplit, List.map_append, List.map_cons]
          have hbecomes := (h.rewires_exchange hmem).becomes h
          rw [h.block_exchange hsplit] at hbecomes
          rw [congrArg (Block.find · addr) hregions,
            Block.find_of_split hhead' (by simpa using hfront) hid]
          exact ⟨rfl, hbecomes⟩

/-- A look-up takes nothing. -/
theorem frugal_find (t : Table) (s : Slot) (addr : Addr) : t.Frugal (t.find s addr).2 := by
  rw [find_eq]
  split
  · exact .refl t
  · split
    · exact .refl t
    · exact .of_size (fun d => Directory.isOwned_modifyEntry _ _ d _)
        (NodePool.size_modify _ _ _) (Nat.le_refl _)

/-! ## Entering a region -/

/-- With a page at hand, a region goes into a vacant entry, or its predecessor there moves to a
node. -/
theorem attach_eq (t : Table) (s : Slot) (bounds : Bounds) {id : PageId} {directory : Directory}
    (hown : t.directory.own s.dir = (some id, directory)) :
    t.attach s bounds =
      if (directory.entry s).bounds.isVacant then
        (.ok (), ⟨directory.modifyEntry s fun e => { e with bounds := bounds }, t.nodes⟩)
      else
        match t.nodes.add ⟨(directory.entry s).bounds, (directory.entry s).next⟩ with
        | (none, nodes) => (.error .metadataExhausted, ⟨directory, nodes⟩)
        | (some id, nodes) =>
          (.ok (),
            ⟨directory.modifyEntry s fun e => { e with bounds := bounds, next := some id },
              nodes⟩) := by
  by_cases hvacant : (directory.entry s).bounds.isVacant
  · simp [attach, hown, hvacant]
  · rcases hadd : t.nodes.add ⟨(directory.entry s).bounds, (directory.entry s).next⟩
      with ⟨place, nodes⟩
    cases place <;> simp [attach, hown, hvacant, hadd]

/-- A change of the entry that keeps its link moves no node. -/
theorem Linked.rewires_entry (h : t.Linked) {directory : Directory}
    (hentry : ∀ s', s' ≠ s → directory.entry s' = t.entry s')
    (hnext : (directory.entry s).next = (t.entry s).next)
    (hvacant : (directory.entry s).bounds.isVacant = true →
      (directory.entry s).bounds = (directory.entry s).fallback ∧ (directory.entry s).next = none) :
    t.Rewires ⟨directory, t.nodes⟩ s (t.nodesAt (.behind s)) (t.nodesAt .free) where
  entry_other := hentry
  size_le := Nat.le_refl _
  get_other _ _ _ _ := rfl
  leads_behind := by
    show t.nodes.Leads (directory.entry s).next _
    rw [hnext]
    exact h.leads (.behind s)
  leads_free := h.leads .free
  freeCount_eq := h.freeCount_eq
  moved id := by
    have : ¬ (t.nodes.nodes.size ≤ id.index ∧ id.index < t.nodes.nodes.size) := by omega
    tauto
  apart id hb hf := by cases h.apart hb hf
  vacant := hvacant
  occupied := h.occupied s

/-- A node that is stored was behind no block. -/
theorem Linked.notMem_stores (h : t.Linked) {node : Node} {id : NodeId} {nodes : NodePool}
    (hstores : t.nodes.Stores (t.nodesAt .free) node id nodes) (s : Slot) :
    id ∉ t.nodesAt (.behind s) := by
  intro hbehind
  rcases hstores.taken with hfree | ⟨-, hsize⟩
  · have hin : id ∈ t.nodesAt .free := by
      rw [hfree]
      exact List.mem_cons_self
    cases h.apart hbehind hin
  · have := (h.leads _).lt id hbehind
    omega

/-- Entering a region in a block with one moves that one into a node. -/
theorem Linked.rewires_attach_held (h : t.Linked) {directory : Directory} {nodes : NodePool}
    {bounds : Bounds} {id : NodeId} (hheld : (t.entry s).bounds.isVacant = false)
    (hbounds : bounds.isVacant = false)
    (hstores : t.nodes.Stores (t.nodesAt .free) ⟨(t.entry s).bounds, (t.entry s).next⟩ id nodes)
    (hentry : ∀ s', directory.entry s' =
      if s = s' then { t.entry s with bounds := bounds, next := some id } else t.entry s') :
    t.Rewires ⟨directory, nodes⟩ s (id :: t.nodesAt (.behind s)) (t.nodesAt .free).tail := by
  have hsub : ∀ other ∈ (t.nodesAt .free).tail, other ∈ t.nodesAt .free :=
    fun other hother => List.mem_of_mem_tail hother
  have hnew := h.notMem_stores hstores s
  have htail := hstores.notMem_tail (h.leads .free).nodup
  have hleads : nodes.Leads (t.entry s).next (t.nodesAt (.behind s)) := by
    refine (h.leads (.behind s)).preserve hstores.size_le fun other hother => ?_
    rw [hstores.get_other other fun he => hnew (he ▸ hother)]
  refine
    { entry_other := fun s' hs => (hentry s').trans (if_neg (Ne.symm hs))
      size_le := hstores.size_le
      get_other := fun other hlt _ hfree => hstores.get_other other ?_
      leads_behind := ?_
      leads_free := hstores.leads_free
      freeCount_eq := hstores.freeCount
      moved := fun other => ?_
      apart := ?_
      vacant := ?_
      occupied := ?_ }
  · rintro rfl
    rcases hstores.taken with hhead | ⟨-, hsize⟩
    · exact hfree (by rw [hhead]; exact List.mem_cons_self)
    · omega
  · show nodes.Leads (directory.entry s).next _
    rw [hentry, if_pos rfl]
    refine .cons hstores.lt ?_
    rw [hstores.get_self]
    exact hleads
  · have hmem := hstores.mem_iff (h.leads .free).lt other
    show other ∈ id :: _ ∨ _ ↔ _ ∨ _ ∨ _ ∧ other.index < nodes.nodes.size
    rw [List.mem_cons]
    tauto
  · intro other hother hfree
    rcases List.mem_cons.mp hother with rfl | hb
    · exact htail hfree
    · cases h.apart hb (hsub other hfree)
  · show (directory.entry s).bounds.isVacant = true → _
    rw [hentry, if_pos rfl]
    intro hv
    rw [hbounds] at hv
    cases hv
  · intro other hother
    show (nodes.get other).bounds.isVacant = false
    rcases List.mem_cons.mp hother with rfl | hb
    · rw [hstores.get_self]
      exact hheld
    · rw [hstores.get_other other fun he => hnew (he ▸ hb)]
      exact h.occupied s other hb

/-- The region goes into the entry of an empty block. -/
theorem Linked.becomes_enter (h : t.Linked) {directory : Directory} {bounds : Bounds}
    (hvacant : (t.entry s).bounds.isVacant = true) (hbounds : bounds.isVacant = false)
    (hentry : ∀ s', directory.entry s' =
      if s = s' then { t.entry s with bounds := bounds } else t.entry s') :
    t.Becomes ⟨directory, t.nodes⟩ (Function.update t.block s ((t.block s).push bounds)) := by
  have hself := (hentry s).trans (if_pos rfl)
  have r := h.rewires_entry (fun s' hs => (hentry s').trans (if_neg (Ne.symm hs))) (by rw [hself])
    (by rw [hself]; simp [hbounds])
  rw [h.block_of_vacant hvacant]
  refine r.becomes_held h hself hbounds ?_
  rw [h.nodesAt_of_next (h.vacant s hvacant).2]
  rfl

/-- The region takes the place of the one in the entry, which goes into a node. -/
theorem Linked.becomes_enter_held (h : t.Linked) {directory : Directory} {nodes : NodePool}
    {bounds : Bounds} {id : NodeId} (hheld : (t.entry s).bounds.isVacant = false)
    (hbounds : bounds.isVacant = false)
    (hstores : t.nodes.Stores (t.nodesAt .free) ⟨(t.entry s).bounds, (t.entry s).next⟩ id nodes)
    (hentry : ∀ s', directory.entry s' =
      if s = s' then { t.entry s with bounds := bounds, next := some id } else t.entry s') :
    t.Becomes ⟨directory, nodes⟩ (Function.update t.block s ((t.block s).push bounds)) := by
  have hself := (hentry s).trans (if_pos rfl)
  have hsame : ∀ other ∈ t.nodesAt (.behind s),
      (nodes.get other).bounds = (t.nodes.get other).bounds := by
    intro other hother
    have hne : other ≠ id := fun he => h.notMem_stores hstores s (he ▸ hother)
    rw [hstores.get_other other hne]
  rw [block_of_held hheld]
  refine (h.rewires_attach_held hheld hbounds hstores hentry).becomes_held h hself hbounds ?_
  rw [List.map_cons, hstores.get_self, List.map_congr_left hsame]

/-- Entering a region succeeds and puts it in front of the block's list, unless
every identifier is in use. -/
theorem Linked.attach_cases (h : t.Linked) (s : Slot) {bounds : Bounds}
    (hbounds : bounds.isVacant = false) :
    (∃ after, t.attach s bounds = (.ok (), after) ∧
      t.Becomes after (Function.update t.block s ((t.block s).push bounds)) ∧
      t.Charges after {s.dir} 1) ∨
    (t.attach s bounds).1 = .error .metadataExhausted ∧ idLimit ≤ t.nodes.usedCount := by
  obtain ⟨page, hown⟩ := t.directory.exists_own s.dir
  have hready : ∀ s', (t.directory.own s.dir).2.entry s' = t.entry s' :=
    Directory.entry_own _ _
  have howned : (t.directory.own s.dir).2.isOwned s.dir = true := by
    simp [Directory.isOwned_own]
  have hdirs : ∀ (change : Entry → Entry) (d : Fin directorySlots),
      ((t.directory.own s.dir).2.modifyEntry s change).isOwned d = true ↔
        t.directory.isOwned d = true ∨ d ∈ ({s.dir} : Set (Fin directorySlots)) := by
    intro change d
    rw [Directory.isOwned_modifyEntry, Directory.isOwned_own, Bool.or_eq_true,
      decide_eq_true_eq, or_comm, Set.mem_singleton_iff, @eq_comm _ d]
  rw [attach_eq t s bounds hown, hready]
  cases hheld : (t.entry s).bounds.isVacant with
  | true =>
      have hentry := Directory.entry_modifyEntry_of_owned howned
        fun e => { e with bounds := bounds }
      simp only [hready] at hentry
      exact .inl ⟨_, rfl, h.becomes_enter hheld hbounds hentry,
        (Charges.of_directory _ (hdirs _)).mono (Nat.zero_le 1)⟩
  | false =>
      rcases (h.leads .free).add_cases h.freeCount_eq ⟨(t.entry s).bounds, (t.entry s).next⟩ with
        ⟨id, nodes, hstores⟩ | ⟨hadd, hfull⟩
      · have hentry := Directory.entry_modifyEntry_of_owned howned
          fun e => { e with bounds := bounds, next := some id }
        simp only [hready] at hentry
        rw [hstores.result]
        have hcharges : t.Charges ⟨_, nodes⟩ {s.dir} 1 :=
          { owned_iff := hdirs fun e => { e with bounds := bounds, next := some id }
            size_eq := hstores.size_eq (h.leads .free) h.freeCount_eq
            le_used := (Nat.le_succ _).trans hstores.used.ge
            used_le := hstores.used.le }
        exact .inl ⟨_, rfl, h.becomes_enter_held hheld hbounds hstores hentry, hcharges⟩
      · rw [hadd]
        exact .inr ⟨rfl, hfull⟩

/-- Entering a region can only fail once the slot has its page. -/
theorem Linked.attach_of_error (h : t.Linked) {s : Slot} {bounds : Bounds} {violation : Violation}
    {after : Table} (hattach : t.attach s bounds = (.error violation, after)) :
    after = ⟨(t.directory.own s.dir).2, t.nodes⟩ := by
  obtain ⟨page, hown⟩ := t.directory.exists_own s.dir
  rw [attach_eq t s bounds hown] at hattach
  split at hattach
  · cases hattach
  · rcases (h.leads .free).add_cases h.freeCount_eq _ with ⟨id, nodes, hstores⟩ | ⟨hadd, -⟩
    · rw [hstores.result] at hattach
      cases hattach
    · rw [hadd] at hattach
      exact (congrArg Prod.snd hattach).symm

/-! ## Removing a region -/

/-- A region in the entry is replaced by the next one, or by the sentinel; one behind it is
taken out of the links. -/
theorem detach_eq (t : Table) (s : Slot) (start : Addr) :
    t.detach s start =
      if (t.entry s).bounds.start = start ∧ (t.entry s).bounds.isVacant = false then
        match (t.entry s).next with
        | none => ⟨t.directory.modifyEntry s Entry.vacate, t.nodes⟩
        | some id =>
          ⟨t.directory.modifyEntry s fun e =>
              { e with bounds := (t.nodes.get id).bounds, next := (t.nodes.get id).next },
            (t.nodes.remove id).2⟩
      else
        match t.nodes.find? (t.entry s).next (·.start == start) with
        | none => t
        | some (none, id) =>
          ⟨t.directory.modifyEntry s fun e => { e with next := (t.nodes.get id).next },
            (t.nodes.remove id).2⟩
        | some (some b, id) =>
          ⟨t.directory,
            ((t.nodes.modify b fun n => { n with next := (t.nodes.get id).next }).remove id).2⟩ := by
  refine if_congr Iff.rfl ?_ ?_
  · show (match (t.entry s).next with | none => _ | some id => _) = _
    cases (t.entry s).next <;> rfl
  · show (match t.nodes.find? (t.entry s).next (·.start == start) with
      | none => _ | some (before, id) => _) = _
    rcases t.nodes.find? (t.entry s).next (·.start == start) with _ | ⟨_ | b, id⟩ <;> rfl

/-- A node taken out of the chain of a block becomes free.  Before it is released,
the chain has been linked past it, in the pool `linked`, and the entry may have
taken over its region. -/
theorem Linked.rewires_release (h : t.Linked) {front back : List NodeId} {id : NodeId}
    (hsplit : t.nodesAt (.behind s) = front ++ id :: back) {directory : Directory}
    {linked : NodePool} (hentry : ∀ s', s' ≠ s → directory.entry s' = t.entry s')
    (hheld : (directory.entry s).bounds.isVacant = false)
    (hleads : linked.Leads (directory.entry s).next (front ++ back))
    (hsize : linked.nodes.size = t.nodes.nodes.size)
    (hfree : linked.Leads linked.freeHead (t.nodesAt .free))
    (hcount : linked.freeCount = t.nodes.freeCount)
    (hkept : ∀ other, other ∉ front → linked.get other = t.nodes.get other)
    (hbounds : ∀ other, (linked.get other).bounds = (t.nodes.get other).bounds) :
    t.Rewires ⟨directory, (linked.remove id).2⟩ s (front ++ back) (id :: t.nodesAt .free) := by
  have hin : id ∈ t.nodesAt (.behind s) := by simp [hsplit]
  have hout := h.notMem_of_split hsplit
  have hmem : ∀ other, other ∈ t.nodesAt (.behind s) ↔ other = id ∨ other ∈ front ++ back := by
    intro other
    rw [hsplit]
    simp
    tauto
  have hnotfree : id ∉ t.nodesAt .free := fun hf => by cases h.apart hin hf
  have hlt : id.index < linked.nodes.size := by
    rw [hsize]
    exact (h.leads _).lt id hin
  have hsize' : (linked.remove id).2.nodes.size = t.nodes.nodes.size := by simp [hsize]
  refine
    { entry_other := hentry
      size_le := hsize'.ge
      get_other := fun other _ hbehind _ => ?_
      leads_behind := hleads.remove hout
      leads_free := hfree.remove_free hlt hnotfree
      freeCount_eq := by
        show (linked.remove id).2.freeCount = _
        simp [hcount, h.freeCount_eq]
      moved := fun other => ?_
      apart := ?_
      vacant := fun hv => ?_
      occupied := ?_ }
  · rw [hmem] at hbehind
    show (linked.remove id).2.get other = _
    rw [NodePool.get_remove_of_ne _ (by tauto), hkept other]
    intro hfront
    exact hbehind (.inr (List.mem_append_left _ hfront))
  · have hold : ¬ (t.nodes.nodes.size ≤ other.index ∧
        other.index < (linked.remove id).2.nodes.size) := by omega
    rw [hmem, List.mem_cons]
    tauto
  · intro other hother hfree'
    rcases List.mem_cons.mp hfree' with rfl | hf
    · exact hout hother
    · cases h.apart ((hmem other).mpr (.inr hother)) hf
  · have hv' : (directory.entry s).bounds.isVacant = true := hv
    rw [hheld] at hv'
    cases hv'
  · intro other hother
    have hne : other ≠ id := by
      rintro rfl
      exact hout hother
    show ((linked.remove id).2.get other).bounds.isVacant = false
    rw [NodePool.get_remove_of_ne _ hne, hbounds]
    exact h.occupied s other ((hmem other).mpr (.inr hother))

/-- The blocks after a node has been taken out of the chain of one of them. -/
theorem Linked.becomes_release (h : t.Linked) {front back : List NodeId} {id : NodeId}
    (hsplit : t.nodesAt (.behind s) = front ++ id :: back) {directory : Directory} {e : Entry}
    {linked : NodePool}
    (hentry : ∀ s', directory.entry s' = if s = s' then e else t.entry s')
    (hheld : e.bounds.isVacant = false) (hleads : linked.Leads e.next (front ++ back))
    (hsize : linked.nodes.size = t.nodes.nodes.size)
    (hfree : linked.Leads linked.freeHead (t.nodesAt .free))
    (hcount : linked.freeCount = t.nodes.freeCount)
    (hkept : ∀ other, other ∉ front → linked.get other = t.nodes.get other)
    (hbounds : ∀ other, (linked.get other).bounds = (t.nodes.get other).bounds) :
    t.Becomes ⟨directory, (linked.remove id).2⟩ (Function.update t.block s
      ⟨e.bounds :: (front ++ back).map fun id => (t.nodes.get id).bounds, e.isForbidden⟩) := by
  have hself : directory.entry s = e := (hentry s).trans (if_pos rfl)
  have hother : ∀ s', s' ≠ s → directory.entry s' = t.entry s' :=
    fun s' hs => (hentry s').trans (if_neg (Ne.symm hs))
  have hout := h.notMem_of_split hsplit
  have r := h.rewires_release hsplit hother (by rw [hself]; exact hheld)
    (by rw [hself]; exact hleads) hsize hfree hcount hkept hbounds
  refine r.becomes_held h hself hheld (List.map_congr_left fun other hother => ?_)
  have hne : other ≠ id := fun he => hout (he ▸ hother)
  show ((linked.remove id).2.get other).bounds = _
  rw [NodePool.get_remove_of_ne _ hne, hbounds]

/-- The only region of a block is taken out of the entry. -/
theorem Linked.becomes_vacate (h : t.Linked) (hnext : (t.entry s).next = none)
    {directory : Directory}
    (hentry : ∀ s', directory.entry s' = if s = s' then (t.entry s).vacate else t.entry s') :
    t.Becomes ⟨directory, t.nodes⟩ (Function.update t.block s ⟨[], (t.entry s).isForbidden⟩) := by
  have hself := (hentry s).trans (if_pos rfl)
  have r := h.rewires_entry (fun s' hs => (hentry s').trans (if_neg (Ne.symm hs)))
    (by rw [hself]; exact hnext.symm) (by rw [hself]; exact fun _ => ⟨rfl, rfl⟩)
  have hvacant : (Table.entry ⟨directory, t.nodes⟩ s).bounds.isVacant = true := by
    rw [entry, hself]
    exact Entry.isVacant_vacate _
  have hbecomes := r.becomes h
  rw [(r.linked h).block_of_vacant hvacant, entry, hself] at hbecomes
  exact hbecomes

/-- The entry takes over the region of the first node behind it. -/
theorem Linked.becomes_advance (h : t.Linked) {id : NodeId} {back : List NodeId}
    (hsplit : t.nodesAt (.behind s) = id :: back) {directory : Directory}
    (hentry : ∀ s', directory.entry s' =
      if s = s' then
        { t.entry s with bounds := (t.nodes.get id).bounds, next := (t.nodes.get id).next }
      else t.entry s') :
    t.Becomes ⟨directory, (t.nodes.remove id).2⟩ (Function.update t.block s
      ⟨(t.nodesAt (.behind s)).map fun id => (t.nodes.get id).bounds,
        (t.entry s).isForbidden⟩) := by
  have hid : id ∈ t.nodesAt (.behind s) := by simp [hsplit]
  have hfront : t.nodesAt (.behind s) = [] ++ id :: back := hsplit
  rw [hsplit]
  exact h.becomes_release hfront hentry (h.occupied s id hid) ((h.leads _).behind hfront) rfl
    (h.leads .free) rfl (fun _ _ => rfl) fun _ => rfl

/-- The node is taken out from behind another one. -/
theorem Linked.becomes_relink (h : t.Linked) {front back : List NodeId} {b id : NodeId}
    (hheld : (t.entry s).bounds.isVacant = false)
    (hsplit : t.nodesAt (.behind s) = (front ++ [b]) ++ id :: back) :
    t.Becomes
      ⟨t.directory,
        ((t.nodes.modify b fun n => { n with next := (t.nodes.get id).next }).remove id).2⟩
      (Function.update t.block s ⟨(t.entry s).bounds ::
        (front ++ [b] ++ back).map fun id => (t.nodes.get id).bounds,
          (t.entry s).isForbidden⟩) := by
  have hb : b ∈ t.nodesAt (.behind s) := by simp [hsplit]
  have hlt := (h.leads _).lt b hb
  have hfree : b ∉ t.nodesAt .free := fun hf => by cases h.apart hb hf
  have hentry : ∀ s', t.directory.entry s' = if s = s' then t.entry s else t.entry s' := by
    intro s'
    split
    · rename_i hs
      rw [hs]
      rfl
    · rfl
  have hleads := h.leads (.behind s)
  rw [hsplit, List.append_assoc, List.singleton_append] at hleads
  refine h.becomes_release hsplit hentry hheld ?_ (by simp) ?_ rfl ?_ ?_
  · rw [List.append_assoc, List.singleton_append]
    exact hleads.relink
  · refine (h.leads .free).preserve (by simp) fun other hother => ?_
    have hne : other ≠ b := fun he => hfree (he ▸ hother)
    rw [NodePool.get_modify_of_ne _ _ hne]
  · intro other hother
    have hne : other ≠ b := by
      intro he
      simp [he] at hother
    rw [NodePool.get_modify_of_ne _ _ hne]
  · intro other
    by_cases hne : other = b
    · subst hne
      rw [NodePool.get_modify_self _ _ hlt]
    · rw [NodePool.get_modify_of_ne _ _ hne]

/-- A removal takes the first region with this start out of the block's list. -/
theorem Linked.detach (h : t.Linked) (s : Slot) (start : Addr) :
    t.Becomes (t.detach s start) (Function.update t.block s ((t.block s).drop start)) := by
  have hstay : (t.block s).drop start = t.block s →
      t.Becomes t (Function.update t.block s ((t.block s).drop start)) := by
    intro hsame
    rw [hsame, Function.update_eq_self]
    exact .refl h
  rw [detach_eq]
  cases hheld : (t.entry s).bounds.isVacant with
  | true =>
      have hnext := (h.vacant s hheld).2
      have hnone : t.nodes.find? none (·.start == start) = none :=
        NodePool.Leads.nil.search_eq_none (by simp) _ _
      rw [if_neg (by simp), hnext, hnone]
      exact hstay (by rw [h.block_of_vacant hheld]; rfl)
  | false =>
      have hblock := block_of_held hheld
      have howned := isOwned_of_held hheld
      by_cases hhead : (t.entry s).bounds.start = start
      · rw [if_pos ⟨hhead, rfl⟩]
        subst hhead
        rw [hblock, Block.drop_of_head]
        cases hnext : (t.entry s).next with
        | none =>
            rw [h.nodesAt_of_next hnext]
            exact h.becomes_vacate hnext (Directory.entry_modifyEntry_of_owned howned Entry.vacate)
        | some id =>
            have hleads := h.leads (.behind s)
            rw [firstNode, hnext] at hleads
            obtain ⟨rest, hsplit, -⟩ := hleads.exists_tail
            exact h.becomes_advance hsplit (Directory.entry_modifyEntry_of_owned howned _)
      · rw [if_neg fun hc => hhead hc.1]
        rcases (h.leads (.behind s)).find?_cases (·.start == start) with
          ⟨hno, hfind⟩ | ⟨front, id, back, hsplit, hfront, hid, hfind⟩
        · rw [firstNode] at hfind
          rw [hfind]
          refine hstay (Block.drop_of_none ?_)
          rw [hblock]
          simpa [hhead] using hno
        · rw [firstNode] at hfind
          rw [hfind]
          have hdrop : (t.block s).drop start = ⟨(t.entry s).bounds ::
              (front ++ back).map fun id => (t.nodes.get id).bounds, (t.entry s).isForbidden⟩ := by
            rw [hblock, hsplit, List.map_append, List.map_cons, ← List.cons_append,
              Block.drop_of_split (by simpa [hhead] using hfront) (by simpa using hid),
              List.map_append, List.cons_append]
          rw [hdrop]
          rcases front.eq_nil_or_concat' with rfl | ⟨front, b, rfl⟩
          · have hentry := Directory.entry_modifyEntry_of_owned howned fun e =>
              { e with next := (t.nodes.get id).next }
            exact h.becomes_release (e := { t.entry s with next := (t.nodes.get id).next }) hsplit
              hentry hheld ((h.leads _).behind hsplit) rfl (h.leads .free) rfl
              (fun _ _ => rfl) fun _ => rfl
          · rw [List.getLast?_concat]
            exact h.becomes_relink hheld hsplit

/-- A removal takes nothing. -/
theorem frugal_detach (t : Table) (s : Slot) (start : Addr) : t.Frugal (t.detach s start) := by
  -- whichever way the node is taken out, it goes to the free ones
  have hrelease : ∀ (change : Entry → Entry) (pool : NodePool) (id : NodeId),
      pool.nodes.size = t.nodes.nodes.size → pool.freeCount = t.nodes.freeCount →
      t.Frugal ⟨t.directory.modifyEntry s change, (pool.remove id).2⟩ := by
    intro change pool id hsize hfree
    refine .of_size (fun d => Directory.isOwned_modifyEntry _ _ d _) ?_ ?_
    · rw [NodePool.size_remove, hsize]
    · rw [NodePool.freeCount_remove, hfree]
      exact Nat.le_succ _
  rw [detach_eq]
  split
  · split
    · exact .of_size (fun d => Directory.isOwned_modifyEntry _ _ d _) rfl (Nat.le_refl _)
    · exact hrelease _ _ _ rfl rfl
  · split
    · exact .refl t
    · exact hrelease _ _ _ rfl rfl
    · refine .of_size (fun _ => rfl) (by simp) ?_
      rw [NodePool.freeCount_remove]
      exact Nat.le_succ _

end Table

end RegionGuard
