import RegionGuard.Table.Basic
import Mathlib.Data.List.Perm.Basic
import Mathlib.Data.List.TakeWhile

/-!
# Blocks as lists

Seen from outside, a block is the list of its regions, the one looked at first in
front, and a mark that says what it falls back to.  Entries, nodes and pages do
not show.  This file defines what the operations of the table do to such a list.

A look-up exchanges the region it finds with the one in front, so it permutes the
list, and what it finds is the first region of the list that has the address.
-/

namespace RegionGuard

/-- What a block holds. -/
structure Block where
  /-- The regions that touch the block, the one looked at first in front. -/
  regions : List Bounds
  /-- Whether an address in no region is forbidden rather than untracked. -/
  isForbidden : Bool
  deriving DecidableEq, Repr

namespace Block

/-- The sentinel that stands for no region. -/
def fallback (b : Block) : Bounds :=
  if b.isForbidden then Bounds.forbidden else Bounds.untracked

/-- The first region that has the address, and the block in which this region has
changed places with the one in front. -/
def find (b : Block) (addr : Addr) : Bounds × Block :=
  match b.regions with
  | [] => (b.fallback, b)
  | head :: others =>
    if head.contains addr then (head, b)
    else
      match others.dropWhile (!·.contains addr) with
      | [] => (b.fallback, b)
      | found :: back =>
        (found,
          { b with regions := found :: (others.takeWhile (!·.contains addr) ++ head :: back) })

/-- Puts a region in front. -/
def push (bounds : Bounds) (b : Block) : Block :=
  { b with regions := bounds :: b.regions }

/-- Leaves one region. -/
def hold (bounds : Bounds) (b : Block) : Block :=
  { b with regions := [bounds] }

/-- Leaves no region. -/
def vacate (b : Block) : Block :=
  { b with regions := [] }

/-- Takes out the first region that starts at an address. -/
def drop (start : Addr) (b : Block) : Block :=
  { b with regions := b.regions.eraseP (·.start == start) }

/-- What a search among the regions behind the front one comes to. -/
theorem find_of_split {head : Bounds} {front back : List Bounds} {found : Bounds}
    {isForbidden : Bool} {addr : Addr} (hhead : head.contains addr = false)
    (hfront : ∀ r ∈ front, r.contains addr = false) (hfound : found.contains addr = true) :
    find ⟨head :: (front ++ found :: back), isForbidden⟩ addr =
      (found, ⟨found :: (front ++ head :: back), isForbidden⟩) := by
  have hpass : ∀ r ∈ front, (!r.contains addr) = true := by simpa using hfront
  have hdrop : (front ++ found :: back).dropWhile (!·.contains addr) = found :: back := by
    rw [List.dropWhile_append_of_pos hpass, List.dropWhile_cons_of_neg (by simp [hfound])]
  have htake : (front ++ found :: back).takeWhile (!·.contains addr) = front := by
    rw [List.takeWhile_append_of_pos hpass, List.takeWhile_cons_of_neg (by simp [hfound]),
      List.append_nil]
  simp only [find, hhead, Bool.false_eq_true, if_false, hdrop, htake]

/-- If no region has the address, the search comes to the sentinel and leaves the order. -/
theorem find_of_none {b : Block} {addr : Addr} (hno : ∀ r ∈ b.regions, r.contains addr = false) :
    b.find addr = (b.fallback, b) := by
  rcases b with ⟨_ | ⟨head, others⟩, isForbidden⟩
  · rfl
  · have hhead := hno head List.mem_cons_self
    have hpass : ∀ r ∈ others, (!r.contains addr) = true := by
      intro r hr
      simp [hno r (List.mem_cons_of_mem _ hr)]
    have hdrop : others.dropWhile (!·.contains addr) = [] := List.dropWhile_eq_nil_iff.mpr hpass
    simp only [find, hhead, Bool.false_eq_true, if_false, hdrop]

/-- A region in front is found where it is. -/
theorem find_of_head {head : Bounds} {others : List Bounds} {isForbidden : Bool} {addr : Addr}
    (hhead : head.contains addr = true) :
    find ⟨head :: others, isForbidden⟩ addr = (head, ⟨head :: others, isForbidden⟩) := by
  simp [find, hhead]

/-- The three ways a look-up can go. -/
theorem find_cases (b : Block) (addr : Addr) :
    ((∀ r ∈ b.regions, r.contains addr = false) ∧ b.find addr = (b.fallback, b)) ∨
    (∃ head others, b.regions = head :: others ∧ head.contains addr = true ∧
      b.find addr = (head, b)) ∨
    (∃ head front found back, b.regions = head :: (front ++ found :: back) ∧
      head.contains addr = false ∧ (∀ r ∈ front, r.contains addr = false) ∧
      found.contains addr = true ∧
      b.find addr = (found, { b with regions := found :: (front ++ head :: back) })) := by
  rcases b with ⟨regions, isForbidden⟩
  cases hfind : regions.find? (·.contains addr) with
  | none =>
      have hno : ∀ r ∈ regions, r.contains addr = false := by
        simpa using List.find?_eq_none.mp hfind
      exact .inl ⟨hno, find_of_none hno⟩
  | some found =>
      obtain ⟨hfound, front, back, rfl, hfront⟩ := List.find?_eq_some_iff_append.mp hfind
      have hfront' : ∀ r ∈ front, r.contains addr = false := by simpa using hfront
      cases front with
      | nil => exact .inr (.inl ⟨found, back, rfl, hfound, find_of_head hfound⟩)
      | cons head front =>
          have hhead := hfront' head List.mem_cons_self
          have hrest : ∀ r ∈ front, r.contains addr = false :=
            fun r hr => hfront' r (List.mem_cons_of_mem _ hr)
          exact .inr (.inr ⟨head, front, found, back, rfl, hhead, hrest, hfound,
            find_of_split hhead hrest hfound⟩)

/-- A look-up answers with a region of the block that has the address, or with
the fallback if there is none. -/
theorem fst_find (b : Block) (addr : Addr) :
    ((b.find addr).1 ∈ b.regions ∧ (b.find addr).1.contains addr = true) ∨
      ((∀ r ∈ b.regions, r.contains addr = false) ∧ (b.find addr).1 = b.fallback) := by
  rcases b.find_cases addr with ⟨hno, hfind⟩ | ⟨head, others, hregions, hhead, hfind⟩ |
    ⟨head, front, found, back, hregions, -, -, hfound, hfind⟩
  · exact .inr ⟨hno, by rw [hfind]⟩
  · exact .inl (by simp [hfind, hregions, hhead])
  · exact .inl (by simp [hfind, hregions, hfound])

@[simp] theorem isForbidden_find (b : Block) (addr : Addr) :
    (b.find addr).2.isForbidden = b.isForbidden := by
  rcases b.find_cases addr with ⟨-, hfind⟩ | ⟨_, _, -, -, hfind⟩ | ⟨_, _, _, _, -, -, -, -, hfind⟩
  all_goals rw [hfind]

/-- A look-up only permutes the regions of the block. -/
theorem find_perm (b : Block) (addr : Addr) : (b.find addr).2.regions.Perm b.regions := by
  rcases b.find_cases addr with ⟨-, hfind⟩ | ⟨_, _, -, -, hfind⟩ |
    ⟨head, front, found, back, hregions, -, -, -, hfind⟩
  · rw [hfind]
  · rw [hfind]
  · rw [hfind, hregions]
    exact ((List.perm_middle.cons found).trans (List.Perm.swap head found _)).trans
      (List.perm_middle.symm.cons head)

/-- The first region with this start is taken out, and the others keep their order. -/
theorem drop_of_split {start : Addr} {front back : List Bounds} {found : Bounds}
    {isForbidden : Bool} (hfront : ∀ r ∈ front, ¬ r.start = start) (hfound : found.start = start) :
    drop start ⟨front ++ found :: back, isForbidden⟩ = ⟨front ++ back, isForbidden⟩ := by
  have hpass : ∀ r ∈ front, ¬ (r.start == start) = true := by simpa using hfront
  rw [drop, List.eraseP_append_right _ hpass, List.eraseP_cons_of_pos (by simp [hfound])]

theorem drop_of_head {head : Bounds} {others : List Bounds} {isForbidden : Bool} :
    drop head.start ⟨head :: others, isForbidden⟩ = ⟨others, isForbidden⟩ := by
  rw [drop, List.eraseP_cons_of_pos (by simp)]

theorem drop_of_none {start : Addr} {b : Block} (hno : ∀ r ∈ b.regions, ¬ r.start = start) :
    b.drop start = b := by
  have hpass : ∀ r ∈ b.regions, ¬ (r.start == start) = true := by simpa using hno
  rw [drop, List.eraseP_of_forall_not hpass]

end Block

end RegionGuard
