import RegionGuard.Heap.Extents
import Mathlib.Data.List.Perm.Basic

/-!
# Sorted lists of extents

A list of extents in ascending order of the starts has at most one extent for
each start.  So inserting and removing are, up to the order, putting in front and
taking out, and with that every count over the list follows.  The count that the
heap needs is how many extents cover a place.
-/

namespace RegionGuard

/-- The place lies in the extent. -/
def Extent.Covers (e : Extent) (place : Nat) : Prop :=
  e.start.toNat ≤ place ∧ place < e.stop

instance (e : Extent) (place : Nat) : Decidable (e.Covers place) :=
  inferInstanceAs (Decidable (_ ∧ _))

/-- Two extents that touch make up a third one. -/
structure Extent.Join (front back whole : Extent) : Prop where
  start_eq : whole.start = front.start
  touch : back.start.toNat = front.stop
  stop_eq : whole.stop = back.stop

namespace Extents

/-- The starts ascend. -/
def Sorted (extents : Extents) : Prop :=
  List.Pairwise (fun a b : Extent => a.start < b.start) extents

variable {extents : Extents} {e x y : Extent} {start : Addr} {place : Nat}

/-- Extents are told apart by their starts. -/
theorem Sorted.eq_of_start (h : Sorted extents) (hx : x ∈ extents) (hy : y ∈ extents)
    (hstart : x.start = y.start) : x = y := by
  induction extents with
  | nil => cases hx
  | cons head rest ih =>
      obtain ⟨hhead, hrest⟩ := List.pairwise_cons.mp h
      rcases List.mem_cons.mp hx with rfl | hx' <;> rcases List.mem_cons.mp hy with rfl | hy'
      · rfl
      · exact absurd (hstart ▸ hhead y hy') (UInt32.lt_irrefl _)
      · exact absurd (hstart ▸ hhead x hx') (UInt32.lt_irrefl _)
      · exact ih hrest hx' hy'

/-! ## Removing -/

/-- Erasing takes out what starts at the address. -/
theorem mem_erase_iff : x ∈ erase extents start ↔ x ∈ extents ∧ x.start ≠ start := by
  simp [erase]

/-- What is left after erasing is still sorted. -/
theorem Sorted.erase (h : Sorted extents) (start : Addr) : Sorted (erase extents start) :=
  List.Pairwise.filter _ h

theorem erase_of_forall_ne (h : ∀ x ∈ extents, x.start ≠ start) : erase extents start = extents := by
  rw [Extents.erase, List.filter_eq_self]
  intro x hx
  simpa using h x hx

theorem erase_cons_of_ne (rest : Extents) (h : x.start ≠ start) :
    erase (x :: rest) start = x :: erase rest start := by
  rw [Extents.erase, List.filter_cons_of_pos (by simpa using h)]
  rfl

theorem erase_cons_of_eq (rest : Extents) (h : x.start = start) :
    erase (x :: rest) start = erase rest start := by
  rw [Extents.erase, List.filter_cons_of_neg (by simpa using h)]
  rfl

/-- An extent that is erased comes back by putting it in front, up to order. -/
theorem Sorted.perm_erase (h : Sorted extents) (he : e ∈ extents) :
    List.Perm extents (e :: Extents.erase extents e.start) := by
  induction extents with
  | nil => cases he
  | cons head rest ih =>
      obtain ⟨hhead, hrest⟩ := List.pairwise_cons.mp h
      rcases List.mem_cons.mp he with rfl | he'
      · have hne : ∀ x ∈ rest, x.start ≠ e.start := fun x hx => (UInt32.ne_of_lt (hhead x hx)).symm
        rw [erase_cons_of_eq rest rfl, erase_of_forall_ne hne]
      · rw [erase_cons_of_ne rest (UInt32.ne_of_lt (hhead e he'))]
        exact ((ih hrest he').cons head).trans (List.Perm.swap e head _)

/-! ## Inserting -/

/-- An insertion replaces what had the same start, up to order. -/
theorem Sorted.insert_perm (h : Sorted extents) (e : Extent) :
    List.Perm (insert extents e) (e :: Extents.erase extents e.start) := by
  induction extents with
  | nil => exact .refl _
  | cons head rest ih =>
      obtain ⟨hhead, hrest⟩ := List.pairwise_cons.mp h
      unfold insert
      split
      · rename_i hbefore
        have hne : ∀ x ∈ head :: rest, x.start ≠ e.start := by
          intro x hx
          rcases List.mem_cons.mp hx with rfl | hx'
          · exact (UInt32.ne_of_lt hbefore).symm
          · exact (UInt32.ne_of_lt (UInt32.lt_trans hbefore (hhead x hx'))).symm
        rw [erase_of_forall_ne hne]
      · split
        · rename_i heq
          have hne : ∀ x ∈ rest, x.start ≠ e.start := fun x hx =>
            heq ▸ (UInt32.ne_of_lt (hhead x hx)).symm
          rw [erase_cons_of_eq rest heq.symm, erase_of_forall_ne hne]
        · rename_i hne
          rw [erase_cons_of_ne rest fun heq => hne heq.symm]
          exact ((ih hrest).cons head).trans (List.Perm.swap e head _)

/-- An insertion adds its extent and takes out the one with the same start. -/
theorem Sorted.mem_insert_iff (h : Sorted extents) :
    x ∈ insert extents e ↔ x = e ∨ x ∈ extents ∧ x.start ≠ e.start := by
  rw [(h.insert_perm e).mem_iff, List.mem_cons, mem_erase_iff]

/-- An insertion keeps the list sorted. -/
theorem Sorted.insert (h : Sorted extents) (e : Extent) : Sorted (insert extents e) := by
  induction extents with
  | nil => exact List.pairwise_singleton _ _
  | cons head rest ih =>
      obtain ⟨hhead, hrest⟩ := List.pairwise_cons.mp h
      unfold Extents.insert
      split
      · rename_i hbefore
        refine List.pairwise_cons.mpr ⟨?_, h⟩
        intro x hx
        rcases List.mem_cons.mp hx with rfl | hx'
        · exact hbefore
        · exact UInt32.lt_trans hbefore (hhead x hx')
      · split
        · rename_i heq
          refine List.pairwise_cons.mpr ⟨?_, hrest⟩
          intro x hx
          rw [heq]
          exact hhead x hx
        · rename_i hnot hne
          have hbehind : head.start < e.start := by
            rw [UInt32.lt_iff_toNat_lt] at hnot ⊢
            have hne' : e.start.toNat ≠ head.start.toNat := fun heq => hne (UInt32.toNat_inj.mp heq)
            omega
          refine List.pairwise_cons.mpr ⟨?_, ih hrest⟩
          intro x hx
          rcases (Sorted.mem_insert_iff hrest).mp hx with rfl | ⟨hx', -⟩
          · exact hbehind
          · exact hhead x hx'

/-! ## Looking up -/

/-- There is no length for an address where nothing starts. -/
theorem lengthAt?_eq_none_iff : lengthAt? extents start = none ↔ ∀ x ∈ extents, x.start ≠ start := by
  simp [lengthAt?]

/-- In a sorted list a length is that of the one extent with this start. -/
theorem Sorted.lengthAt?_eq_some_iff (h : Sorted extents) {length : UInt32} :
    lengthAt? extents start = some length ↔ ⟨start, length⟩ ∈ extents := by
  constructor
  · intro hlength
    obtain ⟨x, hx, rfl⟩ := Option.map_eq_some_iff.mp hlength
    obtain rfl : x.start = start := by simpa using List.find?_some hx
    exact List.mem_of_find?_eq_some hx
  · intro hmem
    cases hfound : lengthAt? extents start with
    | none => exact absurd rfl (lengthAt?_eq_none_iff.mp hfound _ hmem)
    | some other =>
        obtain ⟨x, hx, rfl⟩ := Option.map_eq_some_iff.mp hfound
        have hstart : x.start = start := by simpa using List.find?_some hx
        rw [h.eq_of_start (List.mem_of_find?_eq_some hx) hmem hstart]

/-- What is found before an address is in the list and starts before it. -/
theorem before?_eq_some {addr : Addr} (h : before? extents addr = some x) :
    x ∈ extents ∧ x.start < addr := by
  have hmem := List.mem_of_getLast? h
  simpa using hmem

/-- No extent starts between an address and the last one that starts before it. -/
theorem Sorted.le_before? (h : Sorted extents) {addr : Addr} (hbefore : before? extents addr = some y)
    (hx : x ∈ extents) (hstart : x.start < addr) : x = y ∨ x.start < y.start := by
  have hlast : List.filter (·.start < addr) extents =
      (List.filter (·.start < addr) extents).dropLast ++ [y] :=
    (List.dropLast_append_getLast? y hbefore).symm
  have hmem : x ∈ List.filter (·.start < addr) extents := by simpa using ⟨hx, hstart⟩
  have hsorted := List.Pairwise.filter (fun e : Extent => decide (e.start < addr)) h
  rw [hlast] at hmem hsorted
  rcases List.mem_append.mp hmem with hfront | hback
  · exact .inr ((List.pairwise_append.mp hsorted).2.2 x hfront y (List.mem_singleton_self y))
  · exact .inl (List.mem_singleton.mp hback)

theorem before?_eq_none {addr : Addr} (h : before? extents addr = none) :
    ∀ x ∈ extents, ¬ x.start < addr := by
  simpa [before?] using h

/-! ## Counting -/

/-- How many of the extents cover a place. -/
def cover (extents : Extents) (place : Nat) : Nat :=
  List.countP (fun e => decide (e.Covers place)) extents

theorem cover_nil (place : Nat) : cover [] place = 0 := rfl

/-- Each extent counts once at every place that it covers. -/
theorem cover_cons (e : Extent) (extents : Extents) (place : Nat) :
    cover (e :: extents) place = (if e.Covers place then 1 else 0) + cover extents place := by
  simp [cover, List.countP_cons, Nat.add_comm]

/-- The order has no part in what is covered. -/
theorem cover_of_perm {others : Extents} (h : List.Perm extents others) (place : Nat) :
    cover extents place = cover others place :=
  h.countP_eq _

/-- Removing an extent lowers the count where it was. -/
theorem Sorted.cover_erase (h : Sorted extents) (he : e ∈ extents) (place : Nat) :
    cover extents place = cover (e :: Extents.erase extents e.start) place :=
  cover_of_perm (h.perm_erase he) place

/-- Inserting an extent with a new start raises the count where it comes to lie. -/
theorem Sorted.cover_insert (h : Sorted extents) (hnew : ∀ x ∈ extents, x.start ≠ e.start)
    (place : Nat) :
    cover (Extents.insert extents e) place = cover (e :: extents) place := by
  rw [cover_of_perm (h.insert_perm e), erase_of_forall_ne hnew]

/-- A place in some extent is covered. -/
theorem cover_pos (he : e ∈ extents) (hplace : e.Covers place) : 0 < cover extents place := by
  rw [cover, List.countP_pos_iff]
  exact ⟨e, he, by simpa using hplace⟩

/-- Two extents that touch cover what they cover as one. -/
theorem cover_join {front back whole : Extent} (h : front.Join back whole) (extents : Extents)
    (place : Nat) : cover (whole :: extents) place = cover (front :: back :: extents) place := by
  obtain ⟨hstart, htouch, hstop⟩ := h
  have hfront : front.start.toNat ≤ front.stop := Nat.le_add_right _ _
  have hback : back.start.toNat ≤ back.stop := Nat.le_add_right _ _
  have hwhole : whole.Covers place ↔ front.Covers place ∨ back.Covers place := by
    unfold Extent.Covers
    rw [hstart, hstop]
    omega
  have hapart : ¬ (front.Covers place ∧ back.Covers place) := by
    unfold Extent.Covers
    omega
  rw [cover_cons, cover_cons, cover_cons]
  by_cases hf : front.Covers place <;> by_cases hb : back.Covers place <;>
    simp_all

/-- Where no place is covered twice, an extent is known by any of its places. -/
theorem Sorted.eq_of_covers (h : Sorted extents) (honce : cover extents place ≤ 1)
    (hx : x ∈ extents) (hy : y ∈ extents) (hxplace : x.Covers place) (hyplace : y.Covers place) :
    x = y := by
  by_contra hne
  have hrest : y ∈ Extents.erase extents x.start :=
    mem_erase_iff.mpr ⟨hy, fun hstart => hne (h.eq_of_start hx hy hstart.symm)⟩
  have hpos := cover_pos hrest hyplace
  rw [h.cover_erase hx, cover_cons, if_pos hxplace] at honce
  omega

end Extents

end RegionGuard
