import RegionGuard.Table.NodePool
import Mathlib.Data.List.Basic
import Mathlib.Data.List.Nodup

/-!
# Chains of nodes

The nodes of a pool name each other by identifier, so whether a walk ends, and
what it meets, is a fact about the whole pool.  `Leads` records the exact nodes
that a walk meets.  A walk that ends meets no node twice, which is why the steps
that a chain is walked with, as many as the pool has nodes, always suffice.

The rest says what the four operations of the pool keep.  A change, a removal or
an addition reaches one node, and every chain that does not meet this node stays
as it was.
-/

namespace RegionGuard

namespace NodePool

/-- Following the links from a first node meets exactly these nodes, all of them
in the pool, and then ends. -/
inductive Leads (pool : NodePool) : Option NodeId → List NodeId → Prop
  | nil : Leads pool none []
  | cons {id : NodeId} {ids : List NodeId}
      (hlt : id.index < pool.nodes.size)
      (tail : Leads pool (pool.get id).next ids) :
      Leads pool (some id) (id :: ids)

/-- A chain without a first node is empty. -/
theorem Leads.eq_nil {pool : NodePool} {ids : List NodeId} (h : pool.Leads none ids) :
    ids = [] := by
  cases h
  rfl

/-- A chain with a first node continues behind it. -/
theorem Leads.exists_tail {pool : NodePool} {id : NodeId} {ids : List NodeId}
    (h : pool.Leads (some id) ids) :
    ∃ rest, ids = id :: rest ∧ pool.Leads (pool.get id).next rest := by
  cases h with
  | cons hlt tail => exact ⟨_, rfl, tail⟩

/-- A first node determines what the walk meets. -/
theorem Leads.unique {pool : NodePool} {first : Option NodeId} {ids others : List NodeId}
    (h : pool.Leads first ids) (h' : pool.Leads first others) : ids = others := by
  induction h generalizing others with
  | nil => exact h'.eq_nil.symm
  | cons hlt tail ih =>
      obtain ⟨rest, rfl, hrest⟩ := h'.exists_tail
      rw [ih hrest]

/-- All identifiers on the way name nodes of the pool. -/
theorem Leads.lt {pool : NodePool} {first : Option NodeId} {ids : List NodeId}
    (h : pool.Leads first ids) : ∀ id ∈ ids, id.index < pool.nodes.size := by
  induction h with
  | nil => simp
  | cons hlt tail ih =>
      intro id hid
      rcases List.mem_cons.mp hid with rfl | hid
      · exact hlt
      · exact ih id hid

/-- What a walk meets behind one of its nodes. -/
theorem Leads.behind {pool : NodePool} {first : Option NodeId} {ids front back : List NodeId}
    {id : NodeId} (h : pool.Leads first ids) (hids : ids = front ++ id :: back) :
    pool.Leads (pool.get id).next back := by
  subst hids
  induction front generalizing first with
  | nil =>
      cases h with
      | cons hlt tail => exact tail
  | cons x front ih =>
      cases h with
      | cons hlt tail => exact ih tail

/-- A walk that ends meets no node twice: from a node met again it would have to
end both sooner and later. -/
theorem Leads.nodup {pool : NodePool} {first : Option NodeId} {ids : List NodeId}
    (h : pool.Leads first ids) : ids.Nodup := by
  induction h with
  | nil => exact List.nodup_nil
  | @cons id ids hlt tail ih =>
      refine List.nodup_cons.mpr ⟨?_, ih⟩
      intro hid
      obtain ⟨front, back, rfl⟩ := List.append_of_mem hid
      have heq := tail.unique (tail.behind rfl)
      have hlen := congrArg List.length heq
      simp at hlen
      omega

/-- A chain is not longer than the pool. -/
theorem Leads.length_le {pool : NodePool} {first : Option NodeId} {ids : List NodeId}
    (h : pool.Leads first ids) : ids.length ≤ pool.nodes.size := by
  have hinj : ∀ x ∈ ids, ∀ y ∈ ids, x.index = y.index → x = y := by
    rintro ⟨i⟩ - ⟨j⟩ - rfl
    rfl
  have hnodup : (ids.map NodeId.index).Nodup := h.nodup.map_on hinj
  have hsub : ids.map NodeId.index ⊆ List.range pool.nodes.size := by
    intro i hi
    obtain ⟨id, hid, rfl⟩ := List.mem_map.mp hi
    exact List.mem_range.mpr (h.lt id hid)
  simpa using hnodup.length_le_of_subset hsub

/-- A chain stays as it was if its nodes keep their links. -/
theorem Leads.preserve {pool after : NodePool} {first : Option NodeId} {ids : List NodeId}
    (h : pool.Leads first ids) (hsize : pool.nodes.size ≤ after.nodes.size)
    (hnext : ∀ id ∈ ids, (after.get id).next = (pool.get id).next) :
    after.Leads first ids := by
  induction h with
  | nil => exact .nil
  | @cons id ids hlt tail ih =>
      have htail := ih fun other hother => hnext other (List.mem_cons_of_mem _ hother)
      rw [← hnext id List.mem_cons_self] at htail
      exact .cons (by omega) htail

/-! ## What the readers of a chain answer -/

/-- With enough steps, a walk meets the whole chain. -/
theorem Leads.walk_eq {pool : NodePool} {first : Option NodeId} {ids : List NodeId}
    (h : pool.Leads first ids) {fuel : Nat} (hfuel : ids.length ≤ fuel) :
    pool.walk fuel first = ids := by
  induction h generalizing fuel with
  | nil => cases fuel <;> rfl
  | cons hlt tail ih =>
      cases fuel with
      | zero => simp at hfuel
      | succ fuel => rw [walk, ih (by simpa using hfuel)]

/-- Following the links gives the list that they lead through. -/
theorem Leads.chain_eq {pool : NodePool} {first : Option NodeId} {ids : List NodeId}
    (h : pool.Leads first ids) : pool.chain first = ids :=
  h.walk_eq h.length_le

/-- A search that no node satisfies has no answer. -/
theorem Leads.search_eq_none {pool : NodePool} {p : Bounds → Bool} {first : Option NodeId}
    {ids : List NodeId} (h : pool.Leads first ids)
    (hno : ∀ id ∈ ids, p (pool.get id).bounds = false) (fuel : Nat) (before : Option NodeId) :
    find?.search pool p fuel before first = none := by
  induction h generalizing fuel before with
  | nil => cases fuel <;> rfl
  | @cons id ids hlt tail ih =>
      cases fuel with
      | zero => rfl
      | succ fuel =>
          have hid := hno id List.mem_cons_self
          rw [find?.search]
          simp only [hid, Bool.false_eq_true, if_false]
          exact ih (fun other hother => hno other (List.mem_cons_of_mem _ hother)) _ _

/-- A search stops at the first node that satisfies it and knows the node before. -/
theorem Leads.search_eq_some {pool : NodePool} {p : Bounds → Bool} {first : Option NodeId}
    {front back : List NodeId} {id : NodeId} (h : pool.Leads first (front ++ id :: back))
    (hno : ∀ x ∈ front, p (pool.get x).bounds = false) (hyes : p (pool.get id).bounds = true)
    {fuel : Nat} (hfuel : front.length < fuel) (before : Option NodeId) :
    find?.search pool p fuel before first = some (front.getLast?.or before, id) := by
  induction front generalizing first fuel before with
  | nil =>
      obtain ⟨fuel, rfl⟩ : ∃ n, fuel = n + 1 := ⟨fuel - 1, by simp at hfuel; omega⟩
      cases h with
      | cons hlt tail => simp [find?.search, hyes]
  | cons x front ih =>
      obtain ⟨fuel, rfl⟩ : ∃ n, fuel = n + 1 := ⟨fuel - 1, by simp at hfuel; omega⟩
      cases h with
      | cons hlt tail =>
          have hx := hno x List.mem_cons_self
          have hrest := ih tail (fun y hy => hno y (List.mem_cons_of_mem _ hy))
            (by simpa using hfuel) (some x)
          rw [find?.search]
          simp only [hx, Bool.false_eq_true, if_false, hrest]
          cases front <;> simp [List.getLast?_cons]

/-- Either no node of a chain satisfies a search, or the search splits the chain
at the first one that does. -/
theorem Leads.find?_cases {pool : NodePool} {first : Option NodeId} {ids : List NodeId}
    (h : pool.Leads first ids) (p : Bounds → Bool) :
    ((∀ id ∈ ids, p (pool.get id).bounds = false) ∧ pool.find? first p = none) ∨
    ∃ front id back, ids = front ++ id :: back ∧
      (∀ x ∈ front, p (pool.get x).bounds = false) ∧ p (pool.get id).bounds = true ∧
      pool.find? first p = some (front.getLast?, id) := by
  cases hfind : ids.find? fun id => p (pool.get id).bounds with
  | none =>
      have hno : ∀ id ∈ ids, p (pool.get id).bounds = false := by
        simpa using List.find?_eq_none.mp hfind
      exact .inl ⟨hno, h.search_eq_none hno _ _⟩
  | some id =>
      obtain ⟨hyes, front, back, rfl, hno⟩ := List.find?_eq_some_iff_append.mp hfind
      have hno' : ∀ x ∈ front, p (pool.get x).bounds = false := by simpa using hno
      have hlen := h.length_le
      simp only [List.length_append, List.length_cons] at hlen
      have hsearch : pool.find? first p = some (front.getLast?.or none, id) :=
        h.search_eq_some hno' hyes (by omega) none
      exact .inr ⟨front, id, back, rfl, hno', hyes, by simpa using hsearch⟩

/-! ## What the operations keep -/

@[simp] theorem size_modify (pool : NodePool) (id : NodeId) (change : Node → Node) :
    (pool.modify id change).nodes.size = pool.nodes.size := by
  simp [modify]

/-- A change that keeps the links keeps every chain. -/
theorem Leads.modify {pool : NodePool} {first : Option NodeId} {ids : List NodeId}
    (h : pool.Leads first ids) (changed : NodeId) {change : Node → Node}
    (hchange : ∀ n, (change n).next = n.next) : (pool.modify changed change).Leads first ids := by
  refine h.preserve (by simp) fun id hid => ?_
  by_cases hc : id = changed
  · subst hc
    rw [get_modify_self _ _ (h.lt id hid), hchange]
  · rw [get_modify_of_ne _ _ hc]

/-- A change keeps the chains that do not meet the node, whatever it does to the links. -/
theorem Leads.modify_of_notMem {pool : NodePool} {first : Option NodeId} {ids : List NodeId}
    {id : NodeId} (h : pool.Leads first ids) (hid : id ∉ ids) (change : Node → Node) :
    (pool.modify id change).Leads first ids := by
  refine h.preserve (by simp) fun other hother => ?_
  have hne : other ≠ id := fun he => hid (he ▸ hother)
  rw [get_modify_of_ne _ _ hne]

/-- Linking a node past the one behind it takes that one out of the chain. -/
theorem Leads.relink {pool : NodePool} {first : Option NodeId} {front back : List NodeId}
    {before id : NodeId} (h : pool.Leads first (front ++ before :: id :: back)) :
    (pool.modify before fun n => { n with next := (pool.get id).next }).Leads first
      (front ++ before :: back) := by
  have hnodup := h.nodup
  induction front generalizing first with
  | nil =>
      cases h with
      | cons hlt tail =>
          refine .cons (by simpa using hlt) ?_
          rw [get_modify_self _ _ hlt]
          have hback := tail.behind (List.nil_append (id :: back)).symm
          refine hback.preserve (by simp) fun other hother => ?_
          have hne : other ≠ before := by
            rintro rfl
            simp [hother] at hnodup
          rw [get_modify_of_ne _ _ hne]
  | cons x front ih =>
      cases h with
      | cons hlt tail =>
          have hne : x ≠ before := by
            rintro rfl
            simp at hnodup
          refine .cons (by simpa using hlt) ?_
          rw [get_modify_of_ne _ _ hne]
          exact ih tail (List.nodup_cons.mp hnodup).2

@[simp] theorem size_remove (pool : NodePool) (id : NodeId) :
    (pool.remove id).2.nodes.size = pool.nodes.size := by
  simp [remove]

@[simp] theorem freeCount_remove (pool : NodePool) (id : NodeId) :
    (pool.remove id).2.freeCount = pool.freeCount + 1 := rfl

/-- A removed node leads on to the free nodes. -/
theorem get_remove_self (pool : NodePool) {id : NodeId} (h : id.index < pool.nodes.size) :
    (pool.remove id).2.get id = ⟨Bounds.untracked, pool.freeHead⟩ :=
  get_modify_self pool (fun _ => ⟨Bounds.untracked, pool.freeHead⟩) h

/-- A removal reaches no other node. -/
theorem get_remove_of_ne (pool : NodePool) {id other : NodeId} (h : other ≠ id) :
    (pool.remove id).2.get other = pool.get other :=
  get_modify_of_ne pool (fun _ => ⟨Bounds.untracked, pool.freeHead⟩) h

/-- A removal keeps the chains that do not meet the node. -/
theorem Leads.remove {pool : NodePool} {first : Option NodeId} {ids : List NodeId} {id : NodeId}
    (h : pool.Leads first ids) (hid : id ∉ ids) : (pool.remove id).2.Leads first ids := by
  refine h.preserve (by simp) fun other hother => ?_
  have hne : other ≠ id := fun he => hid (he ▸ hother)
  rw [get_remove_of_ne _ hne]

/-- A removed node becomes the first free one. -/
theorem Leads.remove_free {pool : NodePool} {free : List NodeId} {id : NodeId}
    (h : pool.Leads pool.freeHead free) (hlt : id.index < pool.nodes.size) (hid : id ∉ free) :
    (pool.remove id).2.Leads (pool.remove id).2.freeHead (id :: free) := by
  refine .cons (by simpa using hlt) ?_
  rw [get_remove_self _ hlt]
  exact h.remove hid

/-- What storing a node comes to: the first free identifier is taken, or a new one
if none is free, and nothing else changes. -/
structure Stores (pool : NodePool) (free : List NodeId) (node : Node) (id : NodeId)
    (after : NodePool) : Prop where
  result : pool.add node = (some id, after)
  taken : free = id :: free.tail ∨ free = [] ∧ id.index = pool.nodes.size
  lt : id.index < after.nodes.size
  size_le : pool.nodes.size ≤ after.nodes.size
  old : ∀ other : NodeId, other.index < after.nodes.size →
    other = id ∨ other.index < pool.nodes.size
  get_self : after.get id = node
  get_other : ∀ other, other ≠ id → after.get other = pool.get other
  leads_free : after.Leads after.freeHead free.tail
  freeCount : after.freeCount = free.tail.length
  used : after.usedCount = pool.usedCount + 1

/-- With no free node, a new one is made. -/
theorem stores_fresh {nodes : Array Node} (hroom : nodes.size < idLimit) (node : Node) :
    Stores ⟨nodes, none, 0⟩ [] node ⟨nodes.size⟩ ⟨nodes.push node, none, 0⟩ where
  result := by simp [add, hroom]
  taken := .inr ⟨rfl, rfl⟩
  lt := by simp
  size_le := by simp
  old := by
    intro ⟨i⟩ hi
    rcases Nat.lt_or_ge i nodes.size with hlt | hge
    · exact .inr hlt
    · have : i = nodes.size := by simp at hi; omega
      exact .inl (congrArg NodeId.mk this)
  get_self := by simp [get]
  get_other := by
    intro ⟨i⟩ hne
    have hi : i ≠ nodes.size := fun he => hne (congrArg NodeId.mk he)
    simp [get, Array.getElem?_push, hi]
  leads_free := .nil
  freeCount := rfl
  used := by simp [usedCount]

/-- Else the first free node is used again, and the one after it is the first. -/
theorem Leads.stores_reused {nodes : Array Node} {id : NodeId} {count : Nat} {rest : List NodeId}
    (h : Leads ⟨nodes, some id, count⟩ (some id) (id :: rest)) (hcount : count = rest.length + 1)
    (node : Node) :
    Stores ⟨nodes, some id, count⟩ (id :: rest) node id
      ⟨nodes.modify id.index fun _ => node, (get ⟨nodes, some id, count⟩ id).next, count - 1⟩ := by
  let old : NodePool := ⟨nodes, some id, count⟩
  let after : NodePool := ⟨nodes.modify id.index fun _ => node, (old.get id).next, count - 1⟩
  have hlt : id.index < nodes.size := h.lt id List.mem_cons_self
  have hlength : rest.length + 1 ≤ nodes.size := h.length_le
  have hsize : after.nodes.size = nodes.size := by simp [after]
  have hother : ∀ other, other ≠ id → after.get other = old.get other :=
    fun other hne => get_modify_of_ne old (fun _ => node) hne
  have hrest : after.Leads (old.get id).next rest := by
    obtain ⟨_, hcons, hleads⟩ := h.exists_tail
    obtain rfl := (List.cons.inj hcons).2
    refine hleads.preserve (by simp [hsize]) fun other ho => ?_
    have hne : other ≠ id := fun he => (List.nodup_cons.mp h.nodup).1 (he ▸ ho)
    rw [hother other hne]
  exact
    { result := rfl
      taken := .inl rfl
      lt := Nat.lt_of_lt_of_eq hlt hsize.symm
      size_le := Nat.le_of_eq hsize.symm
      old := fun other ho => .inr (Nat.lt_of_lt_of_eq ho hsize)
      get_self := get_modify_self old (fun _ => node) hlt
      get_other := hother
      leads_free := hrest
      freeCount := by simp [hcount]
      used := by
        show after.nodes.size - (count - 1) = nodes.size - count + 1
        omega }

/-- Storing a node succeeds unless every identifier is in use. -/
theorem Leads.add_cases {pool : NodePool} {free : List NodeId}
    (h : pool.Leads pool.freeHead free) (hcount : pool.freeCount = free.length) (node : Node) :
    (∃ id after, pool.Stores free node id after) ∨
      pool.add node = (none, pool) ∧ idLimit ≤ pool.usedCount := by
  rcases pool with ⟨nodes, freeHead, freeCount⟩
  cases freeHead with
  | none =>
      obtain rfl := h.eq_nil
      obtain rfl : freeCount = 0 := by simpa using hcount
      by_cases hsize : nodes.size < idLimit
      · exact .inl ⟨_, _, stores_fresh hsize node⟩
      · refine .inr ⟨by simp only [add, hsize, if_false], ?_⟩
        simpa [usedCount] using hsize
  | some id =>
      obtain ⟨rest, rfl, -⟩ := h.exists_tail
      exact .inl ⟨_, _, h.stores_reused hcount node⟩

/-- The pool has as many nodes as were ever used at once. -/
theorem Stores.size_eq {pool after : NodePool} {free : List NodeId} {node : Node} {id : NodeId}
    (h : pool.Stores free node id after) (hleads : pool.Leads pool.freeHead free)
    (hcount : pool.freeCount = free.length) :
    after.nodes.size = max pool.nodes.size after.usedCount := by
  have hlength := hleads.length_le
  have hused := h.used
  have hfree := h.freeCount
  unfold usedCount at hused ⊢
  rcases h.taken with hreused | ⟨hnone, -⟩
  · have htail : free.length = free.tail.length + 1 := by
      conv_lhs => rw [hreused, List.length_cons]
    omega
  · rw [hnone] at hcount hfree
    simp only [List.tail_nil, List.length_nil] at hcount hfree
    omega

/-- The node stored in is not free any more. -/
theorem Stores.notMem_tail {pool after : NodePool} {free : List NodeId} {node : Node} {id : NodeId}
    (h : pool.Stores free node id after) (hnodup : free.Nodup) : id ∉ free.tail := by
  rcases h.taken with hfree | ⟨hfree, -⟩
  · rw [hfree] at hnodup
    exact (List.nodup_cons.mp hnodup).1
  · simp [hfree]

/-- The node stored in was free or is new. -/
theorem Stores.mem_iff {pool after : NodePool} {free : List NodeId} {node : Node} {id : NodeId}
    (h : pool.Stores free node id after) (hlt : ∀ id ∈ free, id.index < pool.nodes.size)
    (other : NodeId) :
    other = id ∨ other ∈ free.tail ↔
      other ∈ free ∨ pool.nodes.size ≤ other.index ∧ other.index < after.nodes.size := by
  rcases h.taken with hfree | ⟨hfree, hnew⟩
  · have hold : ¬ (pool.nodes.size ≤ other.index ∧ other.index < after.nodes.size) := by
      intro ⟨hge, hafter⟩
      have hid := hlt id (by rw [hfree]; exact List.mem_cons_self)
      rcases h.old other hafter with rfl | hlt' <;> omega
    have hmem : other ∈ free ↔ other = id ∨ other ∈ free.tail := by
      conv_lhs => rw [hfree]
      exact List.mem_cons
    rw [hmem, or_iff_left hold]
  · have hid : other = id ↔ pool.nodes.size ≤ other.index ∧ other.index < after.nodes.size := by
      constructor
      · intro hother
        rw [hother]
        exact ⟨Nat.le_of_eq hnew.symm, h.lt⟩
      · intro ⟨hge, hafter⟩
        rcases h.old other hafter with hother | hlt'
        · exact hother
        · omega
    rw [hid, hfree]
    simp

end NodePool

end RegionGuard
