import RegionGuard.Table.Page
import RegionGuard.Address.Zone

/-!
# The directory of pages

Each directory slot refers to the page that holds the entries of its blocks.
At first there are only two pages, which all slots share: one of untracked and
one of forbidden entries.  Shared pages are never written.  A slot gets a page
of its own, a copy of the one it shared, the first time one of its entries has
to change; such a page is never given up.

So every page in the pool has exactly one slot that owns it.  The fields
`owned_lt`, `owned_inj` and `owned_surj` say so, which makes every look-up land
inside the pool and every change reach the blocks of one slot only.
-/

namespace RegionGuard

/-- The name of a page in the pool: its position. -/
structure PageId where
  /-- The position. -/
  index : Nat
  deriving DecidableEq, Repr

/-- Where the entries of a directory slot are. -/
inductive Backing
  /-- On the shared page of untracked entries. -/
  | untracked
  /-- On the shared page of forbidden entries. -/
  | forbidden
  /-- On a page of the slot's own. -/
  | owned (id : PageId)
  deriving DecidableEq, Repr

namespace Backing

/-- Whether the slot has a page of its own. -/
def isOwned : Backing → Bool
  | owned _ => true
  | _ => false

/-- The entry that fills a shared page. -/
def template : Backing → Entry
  | forbidden => Entry.forbidden
  | _ => Entry.untracked

end Backing

/-- The directory slots and the pool of owned pages. -/
structure Directory where
  /-- Where the entries of each slot are. -/
  slots : Vector Backing directorySlots
  /-- The owned pages, by identifier. -/
  pages : Array Page
  /-- An owned page is in the pool. -/
  owned_lt : ∀ (d : Fin directorySlots) (id : PageId),
    slots[d] = .owned id → id.index < pages.size
  /-- No two slots own the same page. -/
  owned_inj : ∀ (d e : Fin directorySlots) (id : PageId),
    slots[d] = .owned id → slots[e] = .owned id → d = e
  /-- Some slot owns each page of the pool. -/
  owned_surj : ∀ i < pages.size, ∃ d : Fin directorySlots, slots[d] = .owned ⟨i⟩

namespace Directory

/-- The directory in which every slot shares the page of untracked entries. -/
def blank : Directory where
  slots := Vector.replicate directorySlots .untracked
  pages := #[]
  owned_lt d id h := by simp at h
  owned_inj d e id h := by simp at h
  owned_surj i h := by simp at h

/-- The entry of a block. -/
def entry (dir : Directory) (s : Slot) : Entry :=
  match dir.slots[s.dir] with
  | .owned id =>
    match dir.pages[id.index]? with
    | some page => page.entry s.index
    | none => Entry.untracked
  | shared => shared.template

/-- Whether a slot has a page of its own. -/
def isOwned (dir : Directory) (d : Fin directorySlots) : Bool :=
  dir.slots[d].isOwned

/-- Changes the page of a slot that owns one; other slots are left alone. -/
def modifyPage (dir : Directory) (d : Fin directorySlots) (change : Page → Page) : Directory :=
  match dir.slots[d] with
  | .owned id =>
    { dir with
      pages := dir.pages.modify id.index change
      owned_lt := by simpa using dir.owned_lt
      owned_surj := by simpa using dir.owned_surj }
  | _ => dir

/-- Changes the entry of a block whose slot owns its page. -/
def modifyEntry (dir : Directory) (s : Slot) (change : Entry → Entry) : Directory :=
  dir.modifyPage s.dir fun page => page.modify s.index change

/-- Puts a new page behind a slot that owns none. -/
def promote (dir : Directory) (d : Fin directorySlots)
    (shared : dir.slots[d].isOwned = false) : Directory where
  slots := dir.slots.set d (.owned ⟨dir.pages.size⟩)
  pages := dir.pages.push (Page.uniform dir.slots[d].template)
  owned_lt := by
    intro e id h
    rw [Fin.getElem_fin, Vector.getElem_set] at h
    split at h
    · obtain rfl := Backing.owned.inj h
      simp
    · have := dir.owned_lt e id h
      simp only [Array.size_push]
      omega
  owned_inj := by
    intro e e' id h h'
    rw [Fin.getElem_fin, Vector.getElem_set] at h h'
    split at h <;> split at h'
    · exact Fin.ext (by omega)
    · obtain rfl := Backing.owned.inj h
      exact absurd (dir.owned_lt e' _ h') (Nat.lt_irrefl _)
    · obtain rfl := Backing.owned.inj h'
      exact absurd (dir.owned_lt e _ h) (Nat.lt_irrefl _)
    · exact dir.owned_inj e e' id h h'
  owned_surj := by
    intro i h
    rw [Array.size_push] at h
    by_cases hi : i = dir.pages.size
    · exact ⟨d, by simp [hi]⟩
    · obtain ⟨e, he⟩ := dir.owned_surj i (by omega)
      have hne : d ≠ e := by
        rintro rfl
        simp [he, Backing.isOwned] at shared
      refine ⟨e, ?_⟩
      rw [Fin.getElem_fin, Vector.getElem_set_ne _ _ (by omega)]
      exact he

/-- Gives a slot a page of its own, if it has none, and returns the page's name.
There is no answer when every identifier is in use. -/
def own (dir : Directory) (d : Fin directorySlots) : Option PageId × Directory :=
  match h : dir.slots[d] with
  | .owned id => (some id, dir)
  | .untracked | .forbidden =>
    if dir.pages.size < idLimit then
      (some ⟨dir.pages.size⟩, dir.promote d (by rw [h]; rfl))
    else (none, dir)

/-- Points a slot at the shared page of forbidden entries, unless it owns its
page. -/
def forbid (dir : Directory) (d : Fin directorySlots) : Directory :=
  if shared : dir.slots[d].isOwned = false then
    { slots := dir.slots.set d .forbidden
      pages := dir.pages
      owned_lt := by
        intro e id h
        rw [Fin.getElem_fin, Vector.getElem_set] at h
        split at h
        · cases h
        · exact dir.owned_lt e id h
      owned_inj := by
        intro e e' id h h'
        rw [Fin.getElem_fin, Vector.getElem_set] at h h'
        split at h
        · cases h
        · split at h'
          · cases h'
          · exact dir.owned_inj e e' id h h'
      owned_surj := by
        intro i h
        obtain ⟨e, he⟩ := dir.owned_surj i h
        have hne : d ≠ e := by
          rintro rfl
          simp [he, Backing.isOwned] at shared
        refine ⟨e, ?_⟩
        rw [Fin.getElem_fin, Vector.getElem_set_ne _ _ (by omega)]
        exact he }
  else dir

/-! ## What the operations do to the entries -/

/-- An owned page is in the pool. -/
theorem exists_page {dir : Directory} {d : Fin directorySlots} {id : PageId}
    (h : dir.slots[d] = .owned id) : ∃ page, dir.pages[id.index]? = some page :=
  ⟨_, Array.getElem?_eq_getElem (dir.owned_lt d id h)⟩

/-- The entry of a block whose slot owns its page is on that page. -/
theorem entry_of_owned {dir : Directory} {s : Slot} {id : PageId} {page : Page}
    (h : dir.slots[s.dir] = .owned id) (hp : dir.pages[id.index]? = some page) :
    dir.entry s = page.entry s.index := by
  simp [entry, h, hp]

/-- Any other entry is the one that fills the shared page. -/
theorem entry_of_shared {dir : Directory} {s : Slot}
    (h : dir.slots[s.dir].isOwned = false) : dir.entry s = dir.slots[s.dir].template := by
  unfold entry
  split
  · rename_i id hid
    simp [hid, Backing.isOwned] at h
  · rfl

@[simp] theorem slots_modifyPage (dir : Directory) (d : Fin directorySlots)
    (change : Page → Page) : (dir.modifyPage d change).slots = dir.slots := by
  unfold modifyPage
  split <;> rfl

/-- A slot that shares its page is not changed. -/
theorem modifyPage_of_shared {dir : Directory} {d : Fin directorySlots}
    (change : Page → Page) (h : dir.slots[d].isOwned = false) :
    dir.modifyPage d change = dir := by
  unfold modifyPage
  split
  · rename_i id hid
    simp [hid, Backing.isOwned] at h
  · rfl

/-- Changing the page of a slot changes the entries of that slot's blocks and no
others. -/
theorem entry_modifyPage_of_owned {dir : Directory} {d : Fin directorySlots} {id : PageId}
    {page : Page} (change : Page → Page) (h : dir.slots[d] = .owned id)
    (hp : dir.pages[id.index]? = some page) (s : Slot) :
    (dir.modifyPage d change).entry s =
      if s.dir = d then (change page).entry s.index else dir.entry s := by
  have hpages : (dir.modifyPage d change).pages = dir.pages.modify id.index change := by
    simp only [modifyPage, h]
  have hslots := slots_modifyPage dir d change
  cases hs : dir.slots[s.dir] with
  | owned other =>
    obtain ⟨otherPage, ho⟩ := exists_page hs
    by_cases hd : s.dir = d
    · obtain rfl : id = other := by
        subst hd
        exact Backing.owned.inj (h.symm.trans hs)
      rw [if_pos hd, entry_of_owned (by rw [hslots]; exact hs)]
      simp [hpages, Array.getElem?_modify, hp]
    · have hne : id.index ≠ other.index := by
        intro hi
        obtain rfl : id = other := by
          rcases id with ⟨i⟩
          rcases other with ⟨j⟩
          exact congrArg PageId.mk hi
        exact hd (dir.owned_inj _ _ _ hs h)
      have hkept : (dir.modifyPage d change).pages[other.index]? = some otherPage := by
        simp [hpages, Array.getElem?_modify, hne, ho]
      rw [if_neg hd, entry_of_owned (by rw [hslots]; exact hs) hkept, entry_of_owned hs ho]
  | untracked =>
    have hd : s.dir ≠ d := by
      rintro rfl
      rw [hs] at h
      cases h
    rw [if_neg hd, entry_of_shared (by rw [hslots, hs]; rfl),
      entry_of_shared (by rw [hs]; rfl), hslots]
  | forbidden =>
    have hd : s.dir ≠ d := by
      rintro rfl
      rw [hs] at h
      cases h
    rw [if_neg hd, entry_of_shared (by rw [hslots, hs]; rfl),
      entry_of_shared (by rw [hs]; rfl), hslots]

/-- Changing the entry of a block changes no other entry. -/
theorem entry_modifyEntry (dir : Directory) (s t : Slot) (change : Entry → Entry) :
    (dir.modifyEntry s change).entry t =
      if dir.slots[s.dir].isOwned ∧ s = t then change (dir.entry t) else dir.entry t := by
  cases hs : dir.slots[s.dir] with
  | owned id =>
    obtain ⟨page, hp⟩ := exists_page hs
    rw [modifyEntry, entry_modifyPage_of_owned _ hs hp]
    by_cases hst : s = t
    · subst hst
      simp [Backing.isOwned, Page.entry_modify, entry_of_owned hs hp]
    · by_cases hd : t.dir = s.dir
      · have hi : s.index.val ≠ t.index.val := by
          intro hi
          rcases s with ⟨sd, si⟩
          rcases t with ⟨td, ti⟩
          exact hst (congr (congrArg Slot.mk hd.symm) (Fin.ext hi))
        rw [if_pos hd, Page.entry_modify, if_neg hi, if_neg (by simp [hst])]
        refine (entry_of_owned ?_ hp).symm
        simpa only [hd] using hs
      · rw [if_neg hd, if_neg (by simp [hst])]
  | untracked => rw [modifyEntry, modifyPage_of_shared _ (by rw [hs]; rfl)]; simp [Backing.isOwned]
  | forbidden => rw [modifyEntry, modifyPage_of_shared _ (by rw [hs]; rfl)]; simp [Backing.isOwned]

/-- A slot's own page starts as a copy of the shared one, so no entry changes. -/
theorem entry_promote (dir : Directory) (d : Fin directorySlots)
    (shared : dir.slots[d].isOwned = false) (s : Slot) :
    (dir.promote d shared).entry s = dir.entry s := by
  by_cases hd : d = s.dir
  · subst hd
    rw [entry_of_shared shared]
    simp [entry, promote, Page.entry_uniform]
  · have hslot : (dir.promote d shared).slots[s.dir] = dir.slots[s.dir] := by
      show (dir.slots.set d _)[s.dir.val] = _
      rw [Vector.getElem_set_ne _ _ (fun h => hd (Fin.ext h))]
      rfl
    cases hs : dir.slots[s.dir] with
    | owned id =>
      obtain ⟨page, hp⟩ := exists_page hs
      have hkept : (dir.promote d shared).pages[id.index]? = some page := by
        show (dir.pages.push _)[id.index]? = _
        rw [Array.getElem?_push_lt (dir.owned_lt _ _ hs), ← Array.getElem?_eq_getElem, hp]
      rw [entry_of_owned (hslot.trans hs) hkept, entry_of_owned hs hp]
    | untracked =>
      rw [entry_of_shared (by rw [hslot, hs]; rfl), entry_of_shared (by rw [hs]; rfl), hslot]
    | forbidden =>
      rw [entry_of_shared (by rw [hslot, hs]; rfl), entry_of_shared (by rw [hs]; rfl), hslot]

/-- A page of a slot's own starts as a copy, so giving it one shows in no entry. -/
theorem entry_own (dir : Directory) (d : Fin directorySlots) (s : Slot) :
    (dir.own d).2.entry s = dir.entry s := by
  unfold own
  split
  · rfl
  all_goals
    rename_i h
    split
    · exact entry_promote dir d (by rw [h]; rfl) s
    · rfl

/-- Only the entries of a slot that shares its page become forbidden. -/
theorem entry_forbid (dir : Directory) (d : Fin directorySlots) (s : Slot) :
    (dir.forbid d).entry s =
      if d = s.dir ∧ dir.slots[d].isOwned = false then Entry.forbidden else dir.entry s := by
  unfold forbid
  by_cases shared : dir.slots[d].isOwned = false
  · rw [dif_pos shared]
    by_cases hd : d = s.dir
    · subst hd
      rw [if_pos ⟨rfl, shared⟩]
      simp [entry, Backing.template]
    · have hslot : (dir.slots.set d .forbidden)[s.dir] = dir.slots[s.dir] := by
        show (dir.slots.set d _)[s.dir.val] = _
        rw [Vector.getElem_set_ne _ _ (fun h => hd (Fin.ext h))]
        rfl
      rw [if_neg (fun h => hd h.1)]
      unfold entry
      simp only [hslot]
  · rw [dif_neg shared, if_neg (fun h => shared h.2)]

end Directory

end RegionGuard
