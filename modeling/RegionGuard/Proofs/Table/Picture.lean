import RegionGuard.Proofs.Table.Live
import RegionGuard.Proofs.Text.Numeral
import RegionGuard.Proofs.Text.Split

/-!
# The listing shows the live regions

Every block that a live region touches has one line in the listing, and no other block has
one.  The line names the regions that touch the block, each once, in an order that depends
on what was looked up before.  A number is written with eight digits, so no two regions
look the same, and from the words of the lines the live regions can be read back.
-/

namespace RegionGuard

namespace Table

/-! ## What a listing should be -/

/-- A block and regions, which a line of the listing is made of. -/
structure Row where
  block : Slot
  regions : List Bounds

/-- A region as a line shows it: its start and its end. -/
def regionText (b : Bounds) : String :=
  Text.hexWord b.start ++ ":" ++ Text.hexWord b.stop

/-- The line of a row. -/
def Row.text (row : Row) : String :=
  Text.hexWord row.block.firstAddr ++ ":" ++
    String.join (row.regions.map fun b => " " ++ regionText b) ++ "\n"

/-- The rows go through the blocks that the live regions touch, and each has the regions
that touch its block. -/
structure Pictures (rows : List Row) (live : Set Bounds) : Prop where
  ascending : rows.Pairwise fun row next => row.block.firstAddr < next.block.firstAddr
  exists_row_iff : ∀ s, (∃ row ∈ rows, row.block = s) ↔ ∃ b ∈ live, b.Meets s
  nodup : ∀ row ∈ rows, row.regions.Nodup
  mem_iff : ∀ row ∈ rows, ∀ b, b ∈ row.regions ↔ b ∈ live ∧ b.Meets row.block

/-- The words of each line of a text. -/
def wordsOfLines (text : String) : List (List (List Char)) :=
  (Text.lines text.toList).map Text.words

/-- Line by line the first words are the same, and so are the others up to their order. -/
def SameRows (text other : String) : Prop :=
  List.Forall₂ (fun line line' => line.head? = line'.head? ∧ line.tail.Perm line'.tail)
    (wordsOfLines text) (wordsOfLines other)

/-- The regions that stand behind the first word of some line. -/
def regionsIn (text : String) : Set Bounds :=
  {b | ∃ line ∈ wordsOfLines text, (regionText b).toList ∈ line.tail}

/-- The listing is a picture of the live regions. -/
structure Depicts (t : Table) (live : Set Bounds) : Prop where
  /-- The listing is made of the rows that there should be. -/
  exists_rows : ∃ rows, Pictures rows live ∧ t.listing = String.join (rows.map Row.text)
  /-- The end of a live region does not wrap. -/
  toNat_stop : ∀ b ∈ live, b.stop.toNat = b.start.toNat + b.size.toNat
  /-- The live regions can be read off. -/
  regionsIn_eq : regionsIn t.listing = live
  /-- There is nothing to see if no region is live. -/
  listing_eq_empty_iff : t.listing = "" ↔ live = ∅

variable {t other : Table} {zones zones' : List Zone} {live live' : Set Bounds} {b : Bounds}
  {s : Slot} {rows : List Row} {text text' : String}

/-! ## The words of a row -/

/-- The words that the line of a row consists of. -/
def Row.words (row : Row) : List (List Char) :=
  (Text.hexWord row.block.firstAddr ++ ":").toList :: row.regions.map fun b => (regionText b).toList

theorem not_blank_hexWord (w : UInt32) : ∀ c ∈ (Text.hexWord w).toList, Text.isBlank c = false :=
  fun c hc => Text.isBlank_of_isAlphanum (.inl ((Text.denotes_hexWord w).isAlphanum c hc))

/-- A region is shown by its two end addresses with a colon between them. -/
theorem toList_regionText (b : Bounds) :
    (regionText b).toList = (Text.hexWord b.start).toList ++ ':' :: (Text.hexWord b.stop).toList := by
  simp [regionText]

/-- So it is shown as one word. -/
theorem not_blank_regionText (b : Bounds) : ∀ c ∈ (regionText b).toList, Text.isBlank c = false := by
  rw [toList_regionText]
  exact List.forall_mem_append.mpr ⟨not_blank_hexWord b.start,
    List.forall_mem_cons.mpr ⟨by decide, not_blank_hexWord b.stop⟩⟩

/-- No two regions look the same. -/
theorem regionText_injective {a : Bounds} (h : (regionText a).toList = (regionText b).toList) :
    a = b := by
  rw [toList_regionText, toList_regionText] at h
  obtain ⟨hstart, hrest⟩ := List.append_inj h (by simp only [Text.length_hexWord])
  have hstop := Text.hexWord_injective (List.cons.inj hrest).2
  have hfirst := Text.hexWord_injective hstart
  rw [Bounds.stop, Bounds.stop, hfirst, UInt32.add_right_inj] at hstop
  cases a
  cases b
  simp_all

/-- No word of a row is empty or has a blank in it. -/
theorem Row.words_not_blank (row : Row) :
    ∀ w ∈ row.words, w ≠ [] ∧ ∀ c ∈ w, Text.isBlank c = false := by
  intro w hw
  rcases List.mem_cons.mp hw with rfl | hw
  · have hcolon : ∀ c ∈ ":".toList, Text.isBlank c = false := List.forall_mem_singleton.mpr rfl
    rw [String.toList_append]
    exact ⟨by simp, List.forall_mem_append.mpr ⟨not_blank_hexWord _, hcolon⟩⟩
  · obtain ⟨b, -, rfl⟩ := List.mem_map.mp hw
    exact ⟨by simp [toList_regionText], not_blank_regionText b⟩

/-- The line of a row without its line feed. -/
def Row.line (row : Row) : List Char :=
  (Text.hexWord row.block.firstAddr ++ ":").toList ++
    (row.regions.map fun b => (regionText b).toList).flatMap (' ' :: ·)

/-- A row is one line. -/
theorem Row.toList_text (row : Row) : row.text.toList = row.line ++ ['\n'] := by
  simp [Row.text, Row.line, String.toList_join, List.flatMap_map]

/-- The words of a row can be read off its line. -/
theorem Row.words_line (row : Row) : Text.words row.line = row.words :=
  Text.words_flatMap rfl row.words_not_blank

/-- A line feed is a blank, and the only blanks in the line are spaces. -/
theorem Row.newline_not_mem_line (row : Row) : '\n' ∉ row.line := by
  have hwords : ∀ w ∈ row.words, '\n' ∉ w := by
    intro w hw hnewline
    cases (row.words_not_blank w hw).2 '\n' hnewline
  obtain ⟨hfirst, hrest⟩ := List.forall_mem_cons.mp hwords
  intro hnewline
  rcases List.mem_append.mp hnewline with hmem | hmem
  · exact hfirst hmem
  · obtain ⟨w, hw, hmem⟩ := List.mem_flatMap.mp hmem
    rcases List.mem_cons.mp hmem with hspace | hmem
    · cases hspace
    · exact hrest w hw hmem

/-- The words of a text of rows are those of the rows; behind the last line feed there is
nothing. -/
theorem wordsOfLines_join (rows : List Row) :
    wordsOfLines (String.join (rows.map Row.text)) = rows.map Row.words ++ [[]] := by
  rw [wordsOfLines]
  induction rows with
  | nil => rfl
  | cons row rows ih =>
      rw [List.map_cons, String.join_cons, String.toList_append, row.toList_text, List.append_assoc,
        List.singleton_append, Text.lines_append row.newline_not_mem_line, List.map_cons,
        row.words_line, ih]
      rfl

/-- A text made of rows shows the regions of the rows and no others. -/
theorem mem_regionsIn_join : b ∈ regionsIn (String.join (rows.map Row.text)) ↔
    ∃ row ∈ rows, b ∈ row.regions := by
  have hentry : ∀ row : Row, (regionText b).toList ∈ row.words.tail ↔ b ∈ row.regions := by
    intro row
    constructor
    · intro hmem
      obtain ⟨a, ha, heq⟩ := List.mem_map.mp hmem
      rw [regionText_injective heq] at ha
      exact ha
    · exact fun hmem => List.mem_map.mpr ⟨b, hmem, rfl⟩
  simp [regionsIn, wordsOfLines_join, hentry]

/-! ## Reading a listing -/

theorem SameRows.symm (h : SameRows text text') : SameRows text' text := by
  refine List.Forall₂.flip (h.imp ?_)
  intro line line' ⟨hhead, htail⟩
  exact ⟨hhead.symm, htail.symm⟩

/-- The order within the lines does not matter to what is read off. -/
theorem SameRows.regionsIn_subset (h : SameRows text text') : regionsIn text ⊆ regionsIn text' := by
  intro b ⟨line, hline, hmem⟩
  obtain ⟨line', hline', -, htail⟩ := Text.exists_related_of_mem h hline
  exact ⟨line', hline', htail.mem_iff.mp hmem⟩

/-- The picture. -/
theorem Pictures.regionsIn_eq (h : Pictures rows live) :
    regionsIn (String.join (rows.map Row.text)) = live := by
  ext b
  rw [mem_regionsIn_join]
  constructor
  · intro ⟨row, hrow, hmem⟩
    exact ((h.mem_iff row hrow b).mp hmem).1
  · intro hlive
    have hmeets : b.Meets (Slot.ofAddr b.start) := ⟨b.start, b.spans_start, rfl⟩
    obtain ⟨row, hrow, hblock⟩ := (h.exists_row_iff _).mpr ⟨b, hlive, hmeets⟩
    rw [← hblock] at hmeets
    exact ⟨row, hrow, (h.mem_iff row hrow b).mpr ⟨hlive, hmeets⟩⟩

/-! ## The rows of a table -/

/-- The rows that the listing is made from. -/
def listingRows (t : Table) : List Row :=
  t.occupied.map fun s => ⟨s, (t.block s).regions⟩

theorem listingRegion_eq : listingRegion = fun b => " " ++ regionText b := by
  funext b
  simp only [listingRegion, regionText, String.append_assoc]

/-- The listing is the rows of its occupied blocks. -/
theorem listing_eq_join (t : Table) : t.listing = String.join (t.listingRows.map Row.text) := by
  rw [Table.listing, listingRows, List.map_map]
  refine congrArg String.join (List.map_congr_left fun s _ => ?_)
  simp only [listingLine, Function.comp_apply, Row.text, ← regions_block, Slot.ofAddr_firstAddr,
    listingRegion_eq]

/-- A block lists nothing exactly if no live region touches it. -/
theorem Tracks.isEmpty_regions_iff (h : t.Tracks zones live) (s : Slot) :
    (t.block s).regions.isEmpty = true ↔ ∀ b ∈ live, ¬ b.Meets s := by
  rw [List.isEmpty_iff, List.eq_nil_iff_forall_not_mem]
  simp only [h.mem_iff, not_and]

/-- The occupied blocks are those that a live region touches. -/
theorem Tracks.mem_occupied_iff (h : t.Tracks zones live) :
    s ∈ t.occupied ↔ ∃ b ∈ live, b.Meets s := by
  have hslot : ∃ n < blockCount, Slot.ofBlock n = s := ⟨s.number, s.number_lt, s.ofBlock_number⟩
  have hheld : (!(t.block s).regions.isEmpty) = true ↔ ∃ b ∈ live, b.Meets s := by
    rw [Bool.not_eq_true', ← Bool.not_eq_true, h.isEmpty_regions_iff]
    simp only [not_forall, not_not, exists_prop]
  rw [h.linked.occupied_eq, Blocks.occupied, List.mem_filter, hheld]
  simpa using fun _ _ _ => hslot

/-- Each of them comes once, in ascending order of the addresses. -/
theorem Linked.pairwise_occupied (h : t.Linked) :
    t.occupied.Pairwise fun s next => s.firstAddr < next.firstAddr := by
  rw [h.occupied_eq, Blocks.occupied]
  refine List.Pairwise.filter _ (List.pairwise_map.mpr ?_)
  refine List.Pairwise.imp_of_mem ?_ List.pairwise_lt_range
  intro n next hn hnext hlt
  have hn' : n < 16777216 := List.mem_range.mp hn
  have hnext' : next < 16777216 := List.mem_range.mp hnext
  rw [Slot.firstAddr, Slot.firstAddr, Slot.number_ofBlock hn', Slot.number_ofBlock hnext',
    UInt32.lt_iff_toNat_lt, UInt32.toNat_ofNat', UInt32.toNat_ofNat']
  show n * 256 % 4294967296 < next * 256 % 4294967296
  omega

/-- The rows of the listing are the ones that the live regions call for. -/
theorem Tracks.pictures (h : t.Tracks zones live) : Pictures t.listingRows live where
  ascending := List.pairwise_map.mpr h.linked.pairwise_occupied
  exists_row_iff s := by
    rw [← h.mem_occupied_iff]
    simp [listingRows]
  nodup row hrow := by
    obtain ⟨s, -, rfl⟩ := List.mem_map.mp hrow
    exact h.nodup s
  mem_iff row hrow b := by
    obtain ⟨s, -, rfl⟩ := List.mem_map.mp hrow
    exact h.mem_iff s b

/-- What can be read off the listing is the live regions. -/
theorem Tracks.regionsIn_listing (h : t.Tracks zones live) : regionsIn t.listing = live := by
  rw [listing_eq_join]
  exact h.pictures.regionsIn_eq

/-- Only a table without regions has an empty listing. -/
theorem Tracks.listing_eq_empty_iff (h : t.Tracks zones live) : t.listing = "" ↔ live = ∅ := by
  constructor
  · intro hempty
    have hnothing : regionsIn "" = ∅ := (show Pictures [] ∅ by constructor <;> simp).regionsIn_eq
    rw [← h.regionsIn_listing, hempty, hnothing]
  · intro hlive
    subst hlive
    have hnone : t.occupied = [] := by
      rw [List.eq_nil_iff_forall_not_mem]
      intro s hs
      obtain ⟨b, hb, -⟩ := h.mem_occupied_iff.mp hs
      exact hb
    rw [Table.listing, hnone]
    rfl

/-- Tables with the same live regions have lines for the same blocks, and each line has the
same regions. -/
theorem Tracks.sameRows (h : t.Tracks zones live) (h' : other.Tracks zones' live) :
    SameRows t.listing other.listing := by
  have hoccupied : other.occupied = t.occupied := by
    rw [h.linked.occupied_eq, h'.linked.occupied_eq]
    refine List.filter_congr fun s _ => congrArg not (Bool.eq_iff_iff.mpr ?_)
    rw [h.isEmpty_regions_iff, h'.isEmpty_regions_iff]
  rw [SameRows, listing_eq_join, listing_eq_join, wordsOfLines_join, wordsOfLines_join]
  refine List.rel_append ?_ (.cons ⟨rfl, .refl _⟩ .nil)
  rw [listingRows, listingRows, hoccupied, List.map_map, List.map_map, List.forall₂_map_left_iff,
    List.forall₂_map_right_iff, List.forall₂_same]
  intro s _
  have hperm : (t.block s).regions.Perm (other.block s).regions :=
    (List.perm_ext_iff_of_nodup (h.nodup s) (h'.nodup s)).mpr fun b =>
      (h.mem_iff s b).trans (h'.mem_iff s b).symm
  exact ⟨rfl, hperm.map _⟩

/-! ## Reached tables -/

/-- **The listing is a faithful picture.**  It has the rows that the live regions ask for, each
number in eight digits, so that the live regions can be read off; and two reached tables
have the same listing, up to the order within the lines, exactly if the same regions are
live. -/
theorem depicts_of_reached (h : Reached zones t live) :
    t.Depicts live ∧
    (∀ w, (Text.hexWord w).toList.length = 8 ∧
      Text.Base.hexadecimal.Denotes (Text.hexWord w).toList w.toNat) ∧
    ∀ zones' other live', Reached zones' other live' →
      (SameRows t.listing other.listing ↔ live = live') := by
  have htracks := h.tracks
  refine ⟨?_, fun w => ⟨Text.length_hexWord w, Text.denotes_hexWord w⟩, ?_⟩
  · exact {
      exists_rows := ⟨t.listingRows, htracks.pictures, t.listing_eq_join⟩
      toNat_stop := fun b hb => (htracks.separate.fits b hb).toNat_stop
      regionsIn_eq := htracks.regionsIn_listing
      listing_eq_empty_iff := htracks.listing_eq_empty_iff }
  · intro zones' other live' h'
    constructor
    · intro hsame
      rw [← htracks.regionsIn_listing, ← h'.tracks.regionsIn_listing]
      exact Set.Subset.antisymm hsame.regionsIn_subset hsame.symm.regionsIn_subset
    · intro heq
      subst heq
      exact htracks.sameRows h'.tracks

/-- Two regions, and one of them alone, each as the listing of a table shows them. -/
theorem depicts_of_reached_pair :
    ∃ t other : Table, Reached [⟨0x2000, 0x200⟩] t {⟨0x1020, 0x400⟩, ⟨0x1000, 16⟩} ∧
      Reached [] other {⟨0x1000, 16⟩} ∧
      regionsIn t.listing = {⟨0x1020, 0x400⟩, ⟨0x1000, 16⟩} ∧
      regionsIn other.listing = {⟨0x1000, 16⟩} ∧ ¬ SameRows t.listing other.listing := by
  obtain ⟨t, ht⟩ := exists_reached_pair
  obtain ⟨other, hother⟩ := @exists_reached_single [] 0x1000 16 (by decide) (by decide)
  obtain ⟨hdepicts, -, hsame⟩ := depicts_of_reached ht
  have hdepicts' := (depicts_of_reached hother).1
  refine ⟨t, other, ht, hother, hdepicts.regionsIn_eq, hdepicts'.regionsIn_eq, ?_⟩
  rw [hsame _ _ _ hother]
  intro heq
  have hmem : (⟨0x1020, 0x400⟩ : Bounds) ∈ ({⟨0x1000, 16⟩} : Set Bounds) := by
    rw [← heq]
    exact Set.mem_insert _ _
  cases hmem

end Table

end RegionGuard
