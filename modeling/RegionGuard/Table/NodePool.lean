import RegionGuard.Address.Bounds

/-!
# Nodes for the regions behind a block's entry

A block that several regions touch keeps the first of them in its entry and the
others in a chain of nodes.  All nodes live in one pool and name each other by
identifier.  Released nodes are threaded into a free list through their own
`next` field and are handed out again, last released first, before the pool
grows; so a history of releases and allocations does not make it larger.

Chains are walked with as many steps as the pool has nodes.  A chain without a
repeated node cannot be longer than that.
-/

namespace RegionGuard

/-- The name of a node: its position in the pool. -/
structure NodeId where
  /-- The position. -/
  index : Nat
  deriving DecidableEq, Repr

/-- A region behind a block's entry. -/
structure Node where
  /-- The region. -/
  bounds : Bounds
  /-- The node behind this one. -/
  next : Option NodeId
  deriving DecidableEq, Repr

/-- The content of a node that holds no region. -/
abbrev Node.blank : Node := ⟨Bounds.untracked, none⟩

/-- How many things can be named: identifiers are numbers of 32 bits. -/
abbrev idLimit : Nat := 1 <<< 32

/-- All nodes, used and free. -/
structure NodePool where
  /-- The nodes by identifier. -/
  nodes : Array Node
  /-- The node released last among those that are still free. -/
  freeHead : Option NodeId
  /-- How many nodes are free. -/
  freeCount : Nat

namespace NodePool

/-- A pool without nodes. -/
def empty : NodePool := ⟨#[], none, 0⟩

/-- The content of a node. -/
def get (pool : NodePool) (id : NodeId) : Node :=
  pool.nodes[id.index]?.getD Node.blank

/-- Changes the content of a node. -/
def modify (pool : NodePool) (id : NodeId) (change : Node → Node) : NodePool :=
  match pool with
  | ⟨nodes, freeHead, freeCount⟩ => ⟨nodes.modify id.index change, freeHead, freeCount⟩

/-- Stores a node, in the place of a free one if there is one.  There is no
answer when every identifier is in use. -/
def add (pool : NodePool) (node : Node) : Option NodeId × NodePool :=
  match pool with
  | ⟨nodes, some id, freeCount⟩ =>
    let next := (nodes[id.index]?.getD Node.blank).next
    (some id, ⟨nodes.modify id.index fun _ => node, next, freeCount - 1⟩)
  | ⟨nodes, none, freeCount⟩ =>
    if nodes.size < idLimit then
      (some ⟨nodes.size⟩, ⟨nodes.push node, none, freeCount⟩)
    else (none, ⟨nodes, none, freeCount⟩)

/-- Takes a node out of use and returns what it held. -/
def remove (pool : NodePool) (id : NodeId) : Node × NodePool :=
  match pool with
  | ⟨nodes, freeHead, freeCount⟩ =>
    let node := nodes[id.index]?.getD Node.blank
    (node, ⟨nodes.modify id.index fun _ => ⟨Bounds.untracked, freeHead⟩, some id,
      freeCount + 1⟩)

/-- How many nodes are in use. -/
def usedCount (pool : NodePool) : Nat :=
  pool.nodes.size - pool.freeCount

/-- The identifiers met in at most `fuel` steps along a chain. -/
def walk (pool : NodePool) : (fuel : Nat) → Option NodeId → List NodeId
  | 0, _ => []
  | _, none => []
  | fuel + 1, some id => id :: walk pool fuel (pool.get id).next

/-- The identifiers of a chain, given its first node. -/
def chain (pool : NodePool) (first : Option NodeId) : List NodeId :=
  pool.walk pool.nodes.size first

/-- The regions of a chain, given its first node. -/
def regions (pool : NodePool) (first : Option NodeId) : List Bounds :=
  (pool.chain first).map fun id => (pool.get id).bounds

/-- The first node of a chain whose region satisfies `p`, together with the node
before it. -/
def find? (pool : NodePool) (first : Option NodeId) (p : Bounds → Bool) :
    Option (Option NodeId × NodeId) :=
  search pool.nodes.size none first
where
  /-- Searches `fuel` nodes, having come from `before`. -/
  search : (fuel : Nat) → (before : Option NodeId) → Option NodeId →
      Option (Option NodeId × NodeId)
    | 0, _, _ => none
    | _, _, none => none
    | fuel + 1, before, some id =>
      let node := pool.get id
      if p node.bounds then some (before, id) else search fuel (some id) node.next

/-- A changed node reads back as it was changed. -/
theorem get_modify_self (pool : NodePool) {id : NodeId} (change : Node → Node)
    (h : id.index < pool.nodes.size) : (pool.modify id change).get id = change (pool.get id) := by
  rcases pool with ⟨nodes, freeHead, freeCount⟩
  have h' : id.index < nodes.size := h
  simp [modify, get, Array.getElem_modify, h']

/-- A change reaches no other node. -/
theorem get_modify_of_ne (pool : NodePool) {id other : NodeId} (change : Node → Node)
    (h : other ≠ id) : (pool.modify id change).get other = pool.get other := by
  rcases pool with ⟨nodes, freeHead, freeCount⟩
  have hne : id.index ≠ other.index := by
    rcases id with ⟨i⟩
    rcases other with ⟨j⟩
    rintro rfl
    exact h rfl
  simp [modify, get, Array.getElem?_modify, hne]

end NodePool

end RegionGuard
