import RegionGuard.Proofs.Table.Chain
import RegionGuard.Proofs.Run
import Mathlib.Data.List.Nodup
import Mathlib.Logic.Function.Basic
import Mathlib.Order.Bounds.Basic
import Mathlib.Order.MinMax

/-!
# Nodes used again

The pool threads its free nodes through the same links that join the nodes in use, and a
user may store any content, links included.  What keeps the two apart is a promise of the
users: they name a node only as long as they hold it.

An account records what a user can know without looking at links.  These are the
identifiers in use, those given back in the order of their release, and the content last
stored under each.  In every state that calls can lead to, the pool agrees with it.  The
links from the first free node meet exactly the identifiers given back, last one first, so
they are free of cycles and lead to no node in use, and the pool is as large as the most
nodes that were ever in use at once.
-/

namespace RegionGuard

namespace NodePool

/-- A call of the pool. -/
inductive Call
  | add (node : Node)
  | remove (id : NodeId)
  | get (id : NodeId)
  | modify (id : NodeId) (change : Node → Node)

/-- A pool with what its users know of it. -/
structure Account where
  /-- The pool. -/
  pool : NodePool
  /-- The identifiers in use. -/
  held : List NodeId
  /-- The identifiers given back and not in use again, the last one given back first. -/
  released : List NodeId
  /-- What has been stored last under an identifier. -/
  content : NodeId → Node

namespace Account

/-- The account of a pool without nodes. -/
def blank : Account := ⟨NodePool.empty, [], [], fun _ => Node.blank⟩

/-- The state after a call.  An identifier that is handed out is not free any more,
wherever it stands among those given back. -/
def next (a : Account) : Call → Account
  | .add node =>
    match a.pool.add node with
    | (some id, pool) =>
      ⟨pool, id :: a.held, a.released.erase id, Function.update a.content id node⟩
    | (none, pool) => { a with pool := pool }
  | .remove id => ⟨(a.pool.remove id).2, a.held.erase id, id :: a.released, a.content⟩
  | .get _ => a
  | .modify id change =>
    { a with
      pool := a.pool.modify id change
      content := Function.update a.content id (change (a.content id)) }

/-- A pool whose users name no identifier that they do not hold. -/
def system : System Account Call where
  permits a
    | .add _ => True
    | .remove id | .get id | .modify id _ => id ∈ a.held
  next := next

instance (a : Account) (call : Call) : Decidable (system.permits a call) :=
  match call with
  | .add _ => inferInstanceAs (Decidable True)
  | .remove id | .get id | .modify id _ => inferInstanceAs (Decidable (id ∈ a.held))

/-- The pool and its account agree. -/
structure Kept (a : Account) : Prop where
  leads_free : a.pool.Leads a.pool.freeHead a.released
  freeCount_eq : a.pool.freeCount = a.released.length
  usedCount_eq : a.pool.usedCount = a.held.length
  held_nodup : a.held.Nodup
  held_lt : ∀ id ∈ a.held, id.index < a.pool.nodes.size
  size_le : a.pool.nodes.size ≤ idLimit
  notMem_released : ∀ id ∈ a.held, id ∉ a.released
  get_eq : ∀ id ∈ a.held, a.pool.get id = a.content id

/-- What holds of a pool in the state that calls have led to. -/
structure Reuses (a : Account) (calls : List Call) : Prop where
  /-- No identifier is in use twice. -/
  held_nodup : a.held.Nodup
  /-- Each of them names a node of the pool. -/
  held_lt : ∀ id ∈ a.held, id.index < a.pool.nodes.size
  /-- A node in use reads as it was stored last. -/
  get_eq : ∀ id ∈ a.held, a.pool.get id = a.content id
  /-- Giving it back answers this content. -/
  fst_remove : ∀ id ∈ a.held, (a.pool.remove id).1 = a.content id
  /-- The other nodes in use stay as they are. -/
  get_remove : ∀ id ∈ a.held, ∀ other ∈ a.held, other ≠ id →
    (a.pool.remove id).2.get other = a.content other
  /-- Nor does a change reach them. -/
  get_modify : ∀ id ∈ a.held, ∀ other ∈ a.held, other ≠ id →
    ∀ change, (a.pool.modify id change).get other = a.content other
  /-- Of the identifiers given back, the last one is used again first, and the pool does
  not grow. -/
  add_of_released : ∀ node id rest, a.released = id :: rest →
    (a.pool.add node).1 = some id ∧ (a.pool.add node).2.nodes.size = a.pool.nodes.size
  /-- With none of them left, it grows by the node that has to be stored. -/
  add_of_none : ∀ node, a.released = [] → a.pool.nodes.size < idLimit →
    (a.pool.add node).1 = some ⟨a.pool.nodes.size⟩ ∧
      (a.pool.add node).2.nodes.size = a.pool.nodes.size + 1
  /-- There is no identifier exactly if as many nodes are in use as can be named. -/
  add_eq_none_iff : ∀ node, (a.pool.add node).1 = none ↔ idLimit ≤ a.held.length
  /-- An identifier that is handed out is not in use. -/
  add_notMem : ∀ node id, (a.pool.add node).1 = some id → id ∉ a.held
  /-- The other nodes in use keep their content. -/
  get_add : ∀ node, ∀ other ∈ a.held, (a.pool.add node).2.get other = a.content other
  /-- The links from the first free node meet the identifiers given back, and end. -/
  leads_free : a.pool.Leads a.pool.freeHead a.released
  /-- None of them is met twice. -/
  released_nodup : a.released.Nodup
  /-- None of them is in use. -/
  notMem_held : ∀ id ∈ a.released, id ∉ a.held
  /-- They are as many as the pool says. -/
  freeCount_eq : a.pool.freeCount = a.released.length
  /-- So are those in use. -/
  usedCount_eq : a.pool.usedCount = a.held.length
  /-- Together they are as many as were ever in use at once. -/
  isGreatest : IsGreatest {n | ∃ state ∈ system.states blank calls, state.held.length = n}
    (a.pool.usedCount + a.pool.freeCount)

variable {a : Account} {calls : List Call}

theorem kept_blank : Kept blank where
  leads_free := .nil
  freeCount_eq := rfl
  usedCount_eq := rfl
  held_nodup := List.nodup_nil
  held_lt _ h := absurd h List.not_mem_nil
  size_le := Nat.zero_le _
  notMem_released _ h := absurd h List.not_mem_nil
  get_eq _ h := absurd h List.not_mem_nil

/-- A node is stored under a new identifier or under the first free one, in neither case
under one that is in use. -/
theorem Kept.notMem_of_stores (h : a.Kept) {node : Node} {id : NodeId} {after : NodePool}
    (hstores : a.pool.Stores a.released node id after) : id ∉ a.held := by
  intro hid
  rcases hstores.taken with hfree | ⟨-, hnew⟩
  · refine h.notMem_released id hid ?_
    rw [hfree]
    exact List.mem_cons_self
  · have hlt := h.held_lt id hid
    omega

/-- Whether an identifier is new or was free, what it leaves behind is the rest of the free
ones. -/
theorem erase_of_stores {pool after : NodePool} {free : List NodeId} {node : Node} {id : NodeId}
    (hstores : pool.Stores free node id after) : free.erase id = free.tail := by
  rcases hstores.taken with hfree | ⟨hfree, -⟩
  · rw [hfree, List.erase_cons_head, List.tail_cons]
  · rw [hfree]
    rfl

theorem size_add_le {pool : NodePool} (h : pool.nodes.size ≤ idLimit) (node : Node) :
    (pool.add node).2.nodes.size ≤ idLimit := by
  rcases pool with ⟨nodes, _ | id, freeCount⟩
  · have hsize : nodes.size ≤ idLimit := h
    by_cases hroom : nodes.size < idLimit
    · simp only [NodePool.add, hroom, if_true, Array.size_push]
      exact hroom
    · simp only [NodePool.add, hroom, if_false]
      exact hsize
  · simp only [NodePool.add, Array.size_modify]
    exact h

/-- Storing a node follows the account. -/
theorem Kept.stores (h : a.Kept) {node : Node} {id : NodeId} {after : NodePool}
    (hstores : a.pool.Stores a.released node id after) :
    Kept ⟨after, id :: a.held, a.released.tail, Function.update a.content id node⟩ where
  leads_free := hstores.leads_free
  freeCount_eq := hstores.freeCount
  usedCount_eq := by rw [hstores.used, h.usedCount_eq, List.length_cons]
  held_nodup := List.nodup_cons.mpr ⟨h.notMem_of_stores hstores, h.held_nodup⟩
  held_lt := by
    intro other hother
    rcases List.mem_cons.mp hother with rfl | hother
    · exact hstores.lt
    · exact Nat.lt_of_lt_of_le (h.held_lt other hother) hstores.size_le
  size_le := by
    have hle := size_add_le h.size_le node
    rwa [hstores.result] at hle
  notMem_released := by
    intro other hother
    rcases List.mem_cons.mp hother with rfl | hother
    · exact hstores.notMem_tail h.leads_free.nodup
    · intro htail
      exact h.notMem_released other hother (List.mem_of_mem_tail htail)
  get_eq := by
    intro other hother
    show after.get other = Function.update a.content id node other
    by_cases hsame : other = id
    · rw [hsame, hstores.get_self, Function.update_self]
    · have hheld := (List.mem_cons.mp hother).resolve_left hsame
      rw [hstores.get_other other hsame, Function.update_of_ne hsame, h.get_eq other hheld]

/-- Storing a node follows the account, or there is no identifier and nothing changes. -/
theorem Kept.add_cases (h : a.Kept) (node : Node) :
    (∃ id after, a.pool.Stores a.released node id after ∧ a.next (.add node) =
      ⟨after, id :: a.held, a.released.tail, Function.update a.content id node⟩) ∨
      a.pool.add node = (none, a.pool) ∧ a.next (.add node) = a ∧ idLimit ≤ a.held.length := by
  rcases h.leads_free.add_cases h.freeCount_eq node with ⟨id, after, hstores⟩ | ⟨hnone, hfull⟩
  · refine .inl ⟨id, after, hstores, ?_⟩
    simp only [next, hstores.result, erase_of_stores hstores]
  · rw [h.usedCount_eq] at hfull
    exact .inr ⟨hnone, by simp only [next, hnone], hfull⟩

/-- So storing keeps it, with or without an identifier left. -/
theorem Kept.add (h : a.Kept) (node : Node) : (a.next (.add node)).Kept := by
  rcases h.add_cases node with ⟨id, after, hstores, hnext⟩ | ⟨-, hnext, -⟩
  · rw [hnext]
    exact h.stores hstores
  · rw [hnext]
    exact h

/-- A node given back is not in use any more, so it may head the free ones. -/
theorem Kept.remove (h : a.Kept) {id : NodeId} (hid : id ∈ a.held) :
    (a.next (.remove id)).Kept where
  leads_free := h.leads_free.remove_free (h.held_lt id hid) (h.notMem_released id hid)
  freeCount_eq := congrArg (· + 1) h.freeCount_eq
  usedCount_eq := by
    have hused : a.pool.nodes.size - a.pool.freeCount = a.held.length := h.usedCount_eq
    show (a.pool.remove id).2.nodes.size - (a.pool.remove id).2.freeCount =
      (a.held.erase id).length
    rw [size_remove, freeCount_remove, List.length_erase_of_mem hid]
    omega
  held_nodup := h.held_nodup.erase id
  held_lt := by
    intro other hother
    show other.index < (a.pool.remove id).2.nodes.size
    rw [size_remove]
    exact h.held_lt other (List.mem_of_mem_erase hother)
  size_le := (Nat.le_of_eq (size_remove a.pool id)).trans h.size_le
  notMem_released := by
    intro other hother hmem
    have hother' := h.held_nodup.mem_erase_iff.mp hother
    rcases List.mem_cons.mp hmem with hsame | hfree
    · exact hother'.1 hsame
    · exact h.notMem_released other hother'.2 hfree
  get_eq := by
    intro other hother
    obtain ⟨hne, hheld⟩ := h.held_nodup.mem_erase_iff.mp hother
    exact (get_remove_of_ne a.pool hne).trans (h.get_eq other hheld)

/-- A change reaches one node in use, so the links of the free ones stay. -/
theorem Kept.modify (h : a.Kept) {id : NodeId} (hid : id ∈ a.held) (change : Node → Node) :
    (a.next (.modify id change)).Kept where
  leads_free := h.leads_free.modify_of_notMem (h.notMem_released id hid) change
  freeCount_eq := h.freeCount_eq
  usedCount_eq := by
    have hused : a.pool.nodes.size - a.pool.freeCount = a.held.length := h.usedCount_eq
    show (a.pool.modify id change).nodes.size - a.pool.freeCount = a.held.length
    rw [size_modify, hused]
  held_nodup := h.held_nodup
  held_lt := by
    intro other hother
    show other.index < (a.pool.modify id change).nodes.size
    rw [size_modify]
    exact h.held_lt other hother
  size_le := (Nat.le_of_eq (size_modify a.pool id change)).trans h.size_le
  notMem_released := h.notMem_released
  get_eq := by
    intro other hother
    show (a.pool.modify id change).get other = _
    by_cases hsame : other = id
    · subst hsame
      rw [get_modify_self _ _ (h.held_lt other hid), h.get_eq other hid]
      exact (Function.update_self other _ a.content).symm
    · rw [get_modify_of_ne _ _ hsame, h.get_eq other hother]
      exact (Function.update_of_ne hsame _ a.content).symm

/-- Every call keeps the account. -/
theorem Kept.next (h : a.Kept) (call : Call) (hfair : system.permits a call) :
    (a.next call).Kept := by
  cases call with
  | add node => exact h.add node
  | remove id => exact h.remove hfair
  | get id => exact h
  | modify id change => exact h.modify hfair change

/-! ## How large the pool is -/

/-- Every node is in use or free. -/
theorem Kept.usedCount_add_freeCount (h : a.Kept) :
    a.pool.usedCount + a.pool.freeCount = a.pool.nodes.size := by
  refine Nat.sub_add_cancel ?_
  rw [h.freeCount_eq]
  exact h.leads_free.length_le

/-- The pool grows only when more nodes are in use than it has. -/
theorem Kept.size_next (h : a.Kept) (call : Call) (hfair : system.permits a call) :
    (a.next call).pool.nodes.size =
      max a.pool.nodes.size (a.next call).held.length := by
  have hsize := h.usedCount_add_freeCount
  have hused := h.usedCount_eq
  cases call with
  | add node =>
      rcases h.add_cases node with ⟨id, after, hstores, hnext⟩ | ⟨-, hnext, -⟩
      · have hafter := (h.stores hstores).usedCount_eq
        rw [hnext, ← hafter]
        exact hstores.size_eq h.leads_free h.freeCount_eq
      · rw [hnext]
        exact (max_eq_left (by omega)).symm
  | remove id =>
      have hlength := List.length_erase_of_mem (show id ∈ a.held from hfair)
      show (a.pool.remove id).2.nodes.size = max a.pool.nodes.size (a.held.erase id).length
      rw [size_remove]
      exact (max_eq_left (by omega)).symm
  | get id =>
      show a.pool.nodes.size = max a.pool.nodes.size a.held.length
      exact (max_eq_left (by omega)).symm
  | modify id change =>
      show (a.pool.modify id change).nodes.size = max a.pool.nodes.size a.held.length
      rw [size_modify]
      exact (max_eq_left (by omega)).symm

/-! ## Where a node is stored -/

/-- The identifier given back last is handed out first. -/
theorem Kept.add_of_released (h : a.Kept) (node : Node) {id : NodeId} {rest : List NodeId}
    (hreleased : a.released = id :: rest) :
    (a.pool.add node).1 = some id ∧ (a.pool.add node).2.nodes.size = a.pool.nodes.size := by
  have hhead := h.leads_free
  rcases hpool : a.pool with ⟨nodes, freeHead, freeCount⟩
  rw [hpool, hreleased] at hhead
  cases hhead with
  | cons hlt tail => exact ⟨rfl, Array.size_modify⟩

/-- If none has been given back, the pool grows by one node. -/
theorem Kept.add_of_none (h : a.Kept) (node : Node) (hreleased : a.released = [])
    (hroom : a.pool.nodes.size < idLimit) :
    (a.pool.add node).1 = some ⟨a.pool.nodes.size⟩ ∧
      (a.pool.add node).2.nodes.size = a.pool.nodes.size + 1 := by
  have hhead := h.leads_free
  rcases hpool : a.pool with ⟨nodes, freeHead, freeCount⟩
  rw [hpool, hreleased] at hhead
  rw [hpool] at hroom
  have hroom' : nodes.size < idLimit := hroom
  cases hhead with
  | nil => simp [NodePool.add, hroom']

/-- A pool in which every node is in use and has an identifier has none left. -/
theorem Kept.add_eq_none_iff (h : a.Kept) (node : Node) :
    (a.pool.add node).1 = none ↔ idLimit ≤ a.held.length := by
  constructor
  · intro hnone
    rcases h.add_cases node with ⟨id, after, hstores, -⟩ | ⟨-, -, hfull⟩
    · rw [hstores.result] at hnone
      cases hnone
    · exact hfull
  · intro hfull
    have hsize := h.usedCount_add_freeCount
    rw [h.usedCount_eq, h.freeCount_eq] at hsize
    have hle := h.size_le
    have hreleased : a.released = [] := List.eq_nil_of_length_eq_zero (by omega)
    have hhead := h.leads_free
    rcases hpool : a.pool with ⟨nodes, freeHead, freeCount⟩
    rw [hpool] at hsize hhead
    rw [hreleased] at hhead
    have hroom : ¬ nodes.size < idLimit := by
      have hsize' : a.held.length + a.released.length = nodes.size := hsize
      omega
    cases hhead with
    | nil => simp only [NodePool.add, hroom, if_false]

/-! ## Runs -/

/-- The account is kept in every state that calls lead to. -/
theorem kept_of_run (h : system.Run blank calls a) : a.Kept :=
  h.invariant Kept (fun _ call hfair hkept => hkept.next call hfair) kept_blank

/-- No identifier in use is handed out again. -/
theorem Kept.add_notMem (h : a.Kept) {node : Node} {id : NodeId}
    (hsome : (a.pool.add node).1 = some id) : id ∉ a.held := by
  rcases h.add_cases node with ⟨other, after, hstores, -⟩ | ⟨hnone, -⟩
  · rw [hstores.result] at hsome
    obtain rfl := Option.some.inj hsome
    exact h.notMem_of_stores hstores
  · rw [hnone] at hsome
    cases hsome

/-- Storing a node leaves the content of all others in use. -/
theorem Kept.get_add (h : a.Kept) (node : Node) {other : NodeId} (hother : other ∈ a.held) :
    (a.pool.add node).2.get other = a.content other := by
  rcases h.add_cases node with ⟨id, after, hstores, -⟩ | ⟨hnone, -⟩
  · have hne : other ≠ id := ne_of_mem_of_not_mem hother (h.notMem_of_stores hstores)
    rw [hstores.result, hstores.get_other other hne, h.get_eq other hother]
  · rw [hnone, h.get_eq other hother]

/-- Whatever is stored, in whatever order nodes are taken and given back. -/
theorem reuses_of_run (h : system.Run blank calls a) : a.Reuses calls := by
  have hkept := kept_of_run h
  refine
    { held_nodup := hkept.held_nodup
      held_lt := hkept.held_lt
      get_eq := hkept.get_eq
      fst_remove := hkept.get_eq
      get_remove := ?_
      get_modify := ?_
      add_of_released := fun node id rest => hkept.add_of_released node
      add_of_none := hkept.add_of_none
      add_eq_none_iff := hkept.add_eq_none_iff
      add_notMem := fun node id => hkept.add_notMem
      get_add := fun node other => hkept.get_add node
      leads_free := hkept.leads_free
      released_nodup := hkept.leads_free.nodup
      notMem_held := fun id hfree hheld => hkept.notMem_released id hheld hfree
      freeCount_eq := hkept.freeCount_eq
      usedCount_eq := hkept.usedCount_eq
      isGreatest := ?_ }
  · intro id _ other hother hne
    rw [get_remove_of_ne a.pool hne, hkept.get_eq other hother]
  · intro id _ other hother hne change
    rw [get_modify_of_ne a.pool change hne, hkept.get_eq other hother]
  · rw [hkept.usedCount_add_freeCount]
    exact h.isGreatest_states Kept (fun _ call hfair hkept => hkept.next call hfair)
      (fun state => state.pool.nodes.size) (fun state => state.held.length)
      (fun _ call hfair hkept => hkept.size_next call hfair) kept_blank rfl

/-- Two nodes that name themselves as the next one are given back, the older one first.
The other one is used again, the older one stays free, and the pool keeps two nodes. -/
theorem reuses_of_run_returned :
    ∃ a calls, system.Run blank calls a ∧ a.held = [⟨1⟩] ∧ a.released = [⟨0⟩] ∧
      a.pool.get ⟨1⟩ = ⟨⟨0x3000, 4⟩, none⟩ ∧ a.pool.Leads a.pool.freeHead [⟨0⟩] ∧
      (∀ node, (a.pool.add node).1 = some ⟨0⟩) ∧
      IsGreatest {n | ∃ state ∈ system.states blank calls, state.held.length = n} 2 := by
  let calls : List Call := [.add ⟨⟨0x1000, 8⟩, some ⟨0⟩⟩, .add Node.blank,
    .modify ⟨1⟩ fun n => { n with next := some ⟨1⟩ }, .remove ⟨0⟩, .get ⟨1⟩, .remove ⟨1⟩,
    .add ⟨⟨0x3000, 4⟩, none⟩]
  let a : Account := calls.foldl next blank
  have hrun : system.Run blank calls a :=
    .cons trivial (.cons trivial (.cons (by decide) (.cons (by decide) (.cons (by decide)
      (.cons (by decide) (.cons trivial (.nil a)))))))
  have h := reuses_of_run hrun
  have hheld : a.held = [⟨1⟩] := by decide
  have hreleased : a.released = [⟨0⟩] := by decide
  have hleads := h.leads_free
  have hgreatest := h.isGreatest
  rw [hreleased] at hleads
  rw [h.usedCount_eq, h.freeCount_eq, hheld, hreleased] at hgreatest
  refine ⟨a, calls, hrun, hheld, hreleased, ?_, hleads, fun node => ?_, hgreatest⟩
  · rw [h.get_eq ⟨1⟩ (by rw [hheld]; exact List.mem_singleton_self _)]
    rfl
  · exact (h.add_of_released node ⟨0⟩ [] hreleased).1

end Account

end NodePool

end RegionGuard
