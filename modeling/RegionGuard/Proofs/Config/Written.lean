import RegionGuard.Config.Variables
import RegionGuard.Proofs.Address.Word
import Mathlib.Data.List.ReduceOption

/-!
# How a configuration can be written

A zone is written as two numbers with a colon between them, one form of which is the text of
the zone itself; a list of zones with commas between them and perhaps nothing between some
of them; a policy as one of its words.  Blanks may stand around all of these, and the case
of letters does not matter.  Whatever form is chosen, the configuration is read back.
-/

namespace RegionGuard

open Text (Base)

variable {text front back : List Char} {n : Nat} {z : Zone}

/-! ## The written forms -/

/-- An item of a list of zones, which may be blank and stand for none. -/
inductive ItemText : Option Zone → List Char → Prop
  | blank {text : List Char} (h : ∀ c ∈ text, Text.isBlank c = true) : ItemText none text
  | shown {z : Zone} {text : List Char} (h : Padded (· = z.text.toList) text) :
      ItemText (some z) text
  | pair {z : Zone} {front back : List Char} (hstart : Padded (NumberText z.start.toNat) front)
      (hsize : Padded (NumberText z.size.toNat) back) : ItemText (some z) (front ++ ':' :: back)

/-- A list of zones: its items, blank ones among them, with commas between them. -/
def ZonesText (zones : List Zone) (text : List Char) : Prop :=
  ∃ entries items, List.Forall₂ ItemText entries items ∧ entries.reduceOption = zones ∧
    [','].intercalate items = text

/-- The words for a policy. -/
def UntrackedPolicy.words : UntrackedPolicy → List String
  | .forbid => trueWords
  | .permit => falseWords

/-- One of the words for a policy, each of its letters in either case. -/
def PolicyText (policy : UntrackedPolicy) (text : List Char) : Prop :=
  ∃ word ∈ policy.words, List.Forall₂ (fun c d => d = c ∨ d = c.toUpper) word.toList text

/-- The four variables say which policy, which heap and which zones are meant. -/
structure Written (value? : String → Option String) (policy : UntrackedPolicy) (heap : Zone)
    (zones : List Zone) : Prop where
  strict : ∃ value, value? strictVariable = some value ∧ Padded (PolicyText policy) value.toList
  heapBase : ∃ value, value? heapBaseVariable = some value ∧
    Padded (NumberText heap.start.toNat) value.toList
  heapSize : ∃ value, value? heapSizeVariable = some value ∧
    Padded (NumberText heap.size.toNat) value.toList
  reserve : ∃ value, value? reserveVariable = some value ∧ ZonesText zones value.toList

/-! ## Zones -/

/-- Start and size, each with blanks around it, are read as the zone. -/
theorem readZone_pair (hstart : Padded (NumberText z.start.toNat) front)
    (hsize : Padded (NumberText z.size.toNat) back) : readZone (front ++ ':' :: back) = .ok z := by
  have hcolon : ':' ∉ front := NumberText.not_mem_padded hstart (by decide) (by decide)
  rw [readZone, Text.splitFirst?_append hcolon back]
  simp only [readWord_of_padded_toNat hstart, readWord_of_padded_toNat hsize]

/-- Without the blanks at its ends a pair of numbers is still a pair of numbers. -/
theorem exists_trim_pair (hstart : Padded (NumberText z.start.toNat) front)
    (hsize : Padded (NumberText z.size.toNat) back) :
    ∃ front' back', Text.trim (front ++ ':' :: back) = front' ++ ':' :: back' ∧
      Padded (NumberText z.start.toNat) front' ∧ Padded (NumberText z.size.toNat) back' := by
  obtain ⟨before, start, after, hbefore, hfirst, hafter, rfl⟩ := hstart
  obtain ⟨before', size, after', hbefore', hlast, hafter', rfl⟩ := hsize
  refine ⟨start ++ after, before' ++ size, ?_, ⟨[], start, after, by simp, hfirst, hafter, rfl⟩,
    ⟨before', size, [], hbefore', hlast, by simp, by simp⟩⟩
  have hmiddle : before ++ (start ++ after) ++ ':' :: (before' ++ (size ++ after')) =
      before ++ ((start ++ after ++ ':' :: (before' ++ size)) ++ after') := by
    simp
  rw [hmiddle]
  apply Text.trim_append hbefore hafter'
  · intro c hc
    rw [List.append_assoc, List.head?_append_of_ne_nil _ hfirst.ne_nil] at hc
    exact hfirst.not_blank c (List.mem_of_head? hc)
  · intro c hc
    have hback : (start ++ after ++ ':' :: (before' ++ size)).getLast? = size.getLast? := by
      rw [← List.cons_append, ← List.append_assoc, List.getLast?_append_of_ne_nil _ hlast.ne_nil]
    rw [hback] at hc
    exact hlast.not_blank c (List.mem_of_getLast? hc)

/-- The text of a zone is a pair of numbers. -/
theorem exists_pair_text (z : Zone) :
    ∃ front back, z.text.toList = front ++ ':' :: back ∧ NumberText z.start.toNat front ∧
      NumberText z.size.toNat back := by
  have hnumber := fun n => Base.denotes_toDigits .hexadecimal n
  refine ⟨['0', 'x'] ++ (Text.hexDigits z.start.toNat).leftpad 8 '0',
    ['0', 'x'] ++ Text.hexDigits z.size.toNat, ?_,
    .intro .small (.refl _) ((hnumber z.start.toNat).leftpad 8),
    .intro .small (.refl _) (hnumber z.size.toNat)⟩
  simp [Zone.text, Text.hexAddr, Text.hexWord]

/-- A zone is read back from its own text. -/
theorem readZone_text (z : Zone) : readZone z.text.toList = .ok z := by
  obtain ⟨front, back, htext, hstart, hsize⟩ := exists_pair_text z
  rw [htext]
  exact readZone_pair (.of_self hstart) (.of_self hsize)

/-! ## Lists of zones -/

variable {entry : Option Zone}

/-- An item is blank, or it is a pair of numbers. -/
theorem ItemText.blank_or_pair (h : ItemText entry text) :
    (entry = none ∧ ∀ c ∈ text, Text.isBlank c = true) ∨
    ∃ z front back, entry = some z ∧ text = front ++ ':' :: back ∧
      Padded (NumberText z.start.toNat) front ∧ Padded (NumberText z.size.toNat) back := by
  cases h with
  | blank hblank => exact .inl ⟨rfl, hblank⟩
  | pair hstart hsize => exact .inr ⟨_, _, _, rfl, rfl, hstart, hsize⟩
  | @shown z _ hshown =>
      obtain ⟨before, core, after, hbefore, rfl, hafter, rfl⟩ := hshown
      obtain ⟨front, back, htext, hstart, hsize⟩ := exists_pair_text z
      refine .inr ⟨z, before ++ front, back ++ after, rfl, ?_,
        ⟨before, front, [], hbefore, hstart, by simp, by simp⟩,
        ⟨[], back, after, by simp, hsize, hafter, rfl⟩⟩
      simp [htext]

/-- No item has a comma in it, so commas part the items of a list. -/
theorem ItemText.comma_not_mem (h : ItemText entry text) : ',' ∉ text := by
  rcases h.blank_or_pair with ⟨-, hblank⟩ | ⟨z, front, back, -, rfl, hstart, hsize⟩
  · intro hcomma
    cases hblank ',' hcomma
  · have hfront : ',' ∉ front := NumberText.not_mem_padded hstart (by decide) (by decide)
    have hback : ',' ∉ back := NumberText.not_mem_padded hsize (by decide) (by decide)
    simp [hfront, hback]

/-- Without the blanks around it, an item is nothing or is read as its zone. -/
theorem trim_item (h : ItemText entry text) :
    (entry = none ∧ Text.trim text = []) ∨
    ∃ z, entry = some z ∧ Text.trim text ≠ [] ∧ readZone (Text.trim text) = .ok z := by
  rcases h.blank_or_pair with ⟨hnone, hblank⟩ | ⟨z, front, back, hsome, rfl, hstart, hsize⟩
  · exact .inl ⟨hnone, Text.trim_of_forall_blank hblank⟩
  · obtain ⟨front', back', htrim, hstart', hsize'⟩ := exists_trim_pair hstart hsize
    rw [htrim]
    exact .inr ⟨z, hsome, List.append_ne_nil_of_right_ne_nil _ (List.cons_ne_nil _ _),
      readZone_pair hstart' hsize'⟩

/-- Blank items are passed over, and the others are read in order. -/
theorem readZones_items {entries : List (Option Zone)} {items : List (List Char)}
    (h : List.Forall₂ ItemText entries items) :
    readZones ((items.map Text.trim).filter (!·.isEmpty)) = .ok entries.reduceOption := by
  induction h with
  | nil => rfl
  | @cons entry item entries items hitem hitems ih =>
      rw [List.map_cons]
      rcases trim_item hitem with ⟨rfl, hempty⟩ | ⟨z, rfl, hne, hread⟩
      · rw [hempty, List.filter_cons_of_neg (by simp), List.reduceOption_cons_of_none, ih]
      · rw [List.filter_cons_of_pos (by simpa using hne), List.reduceOption_cons_of_some, readZones,
          hread, ih]
        rfl

/-- So a list of zones is read from the items between its commas. -/
theorem readZones_listItems {zones : List Zone} (h : ZonesText zones text) :
    readZones (listItems text) = .ok zones := by
  obtain ⟨entries, items, hitems, rfl, rfl⟩ := h
  by_cases hne : items = []
  · obtain rfl := hne
    cases hitems
    rfl
  · have hcommas : ∀ item ∈ items, ∀ c ∈ item, (c == ',') = false := by
      intro item hmem c hc
      obtain ⟨entry, -, hitem⟩ := Text.exists_related_of_mem hitems.flip hmem
      rw [beq_eq_false_iff_ne]
      intro heq
      rw [heq] at hc
      exact hitem.comma_not_mem hc
    rw [listItems, Text.fields_intercalate rfl hne hcommas]
    exact readZones_items hitems

/-! ## Policies -/

/-- The words of a policy consist of small letters and digits, which are found again in either
case. -/
theorem UntrackedPolicy.words_chars : ∀ policy : UntrackedPolicy, ∀ word ∈ policy.words,
    ∀ c ∈ word.toList, ∀ d ∈ [c, c.toUpper], d.toLower = c ∧ Text.isBlank d = false := by
  have hall : ∀ policy : UntrackedPolicy, policy.words.all (fun word => word.toList.all fun c =>
      [c, c.toUpper].all fun d => d.toLower == c && !Text.isBlank d) = true := by
    intro policy
    cases policy <;> decide
  intro policy word hword c hc d hd
  have hd' := List.all_eq_true.mp (List.all_eq_true.mp (List.all_eq_true.mp (hall policy) word hword)
    c hc) d hd
  simpa using hd'

/-- In lower case, letters of either case are what they were. -/
theorem map_toLower_of_letters {word : List Char}
    (h : List.Forall₂ (fun c d => d = c ∨ d = c.toUpper) word text)
    (hword : ∀ c ∈ word, ∀ d ∈ [c, c.toUpper], d.toLower = c ∧ Text.isBlank d = false) :
    text.map Char.toLower = word ∧ ∀ c ∈ text, Text.isBlank c = false := by
  induction h with
  | nil => simp
  | @cons c d word text hletter hletters ih =>
      obtain ⟨hc, hrest⟩ := List.forall_mem_cons.mp hword
      obtain ⟨hlower, hblank⟩ := hc d (by simpa using hletter)
      obtain ⟨hlowers, hblanks⟩ := ih hrest
      exact ⟨by rw [List.map_cons, hlower, hlowers], List.forall_mem_cons.mpr ⟨hblank, hblanks⟩⟩

/-- Each word of a policy, in any case and with blanks around it, is read as the policy. -/
theorem readFlag_padded {policy : UntrackedPolicy} (h : Padded (PolicyText policy) text) :
    readFlag text = .ok (decide (policy = .forbid)) := by
  obtain ⟨before, core, after, hbefore, ⟨word, hword, hletters⟩, hafter, rfl⟩ := h
  obtain ⟨hlower, hblank⟩ := map_toLower_of_letters hletters (policy.words_chars word hword)
  rw [readFlag, Text.trim_append_of_forall_not hbefore hafter hblank, hlower, String.ofList_toList]
  have hfalse : ∀ w ∈ falseWords, w ∉ trueWords := by decide
  cases policy with
  | forbid => exact if_pos hword
  | permit => exact (if_neg (hfalse word hword)).trans (if_pos hword)

/-! ## Configurations -/

section Variables

variable {value : String} (config : Config)

theorem readStrict_padded {policy : UntrackedPolicy} (h : Padded (PolicyText policy) value.toList) :
    config.readStrict (some value) = .ok { config with untracked := policy } := by
  rw [Config.readStrict, readFlag_padded h]
  cases policy <;> rfl

theorem readHeapBase_padded {start : Addr} (h : Padded (NumberText start.toNat) value.toList) :
    config.readHeapBase (some value) = .ok { config with heap := ⟨start, config.heap.size⟩ } := by
  simp only [Config.readHeapBase, readWord_of_padded_toNat h]

theorem readHeapSize_padded {size : UInt32} (h : Padded (NumberText size.toNat) value.toList) :
    config.readHeapSize (some value) = .ok { config with heap := ⟨config.heap.start, size⟩ } := by
  simp only [Config.readHeapSize, readWord_of_padded_toNat h]

/-- The variable for reserved zones adds them. -/
theorem readReserved_zonesText {zones : List Zone} (h : ZonesText zones value.toList) :
    config.readReserved (some value) = .ok { config with reserved := config.reserved ++ zones } := by
  simp only [Config.readReserved, readZones_listItems h]

end Variables

/-- Together the variables are read as the configuration that they are written for. -/
theorem ofVariables_of_written {value? : String → Option String} {policy : UntrackedPolicy}
    {heap : Zone} {zones : List Zone} (h : Written value? policy heap zones) :
    Config.ofVariables value? = .ok ⟨policy, Config.default.onViolation, heap, zones⟩ := by
  obtain ⟨strict, hstrict, hpolicy⟩ := h.strict
  obtain ⟨base, hbase, hstart⟩ := h.heapBase
  obtain ⟨size, hsize, hlength⟩ := h.heapSize
  obtain ⟨reserve, hreserve, hzones⟩ := h.reserve
  simp only [Config.ofVariables, hstrict, hbase, hsize, hreserve, readStrict_padded _ hpolicy,
    readHeapBase_padded _ hstart, readHeapSize_padded _ hlength, readReserved_zonesText _ hzones,
    Except.bind, bind]
  rfl

/-- A list of zones may be written with commas and no blanks. -/
theorem zonesText_of_texts (zones : List Zone) :
    ZonesText zones ([','].intercalate (zones.map (·.text.toList))) := by
  refine ⟨zones.map some, zones.map (·.text.toList), ?_, by simp [List.reduceOption], rfl⟩
  induction zones with
  | nil => exact .nil
  | cons z zones ih => exact .cons (.shown (.of_self rfl)) ih

/-- Whatever is meant can be written. -/
theorem exists_written (policy : UntrackedPolicy) (heap : Zone) (zones : List Zone) :
    ∃ value?, Written value? policy heap zones := by
  have hnumber : ∀ w : UInt32, NumberText w.toNat (Nat.toDigits 10 w.toNat) := fun w =>
    .intro .decimal (.refl _) (Base.denotes_toDigits .decimal w.toNat)
  have hpolicy : ∃ word : String, PolicyText policy word.toList := by
    cases policy with
    | forbid => exact ⟨"1", "1", by decide, .cons (.inl rfl) .nil⟩
    | permit => exact ⟨"0", "0", by decide, .cons (.inl rfl) .nil⟩
  obtain ⟨word, hword⟩ := hpolicy
  refine ⟨fun name =>
    if name = strictVariable then some word
    else if name = heapBaseVariable then some (String.ofList (Nat.toDigits 10 heap.start.toNat))
    else if name = heapSizeVariable then some (String.ofList (Nat.toDigits 10 heap.size.toNat))
    else some (String.ofList ([','].intercalate (zones.map (·.text.toList)))), ?_⟩
  exact {
    strict := ⟨word, rfl, .of_self hword⟩
    heapBase := ⟨_, rfl, String.toList_ofList ▸ .of_self (hnumber heap.start)⟩
    heapSize := ⟨_, rfl, String.toList_ofList ▸ .of_self (hnumber heap.size)⟩
    reserve := ⟨_, rfl, String.toList_ofList ▸ zonesText_of_texts zones⟩ }

/-- **Configurations are read back.**  Every policy, heap and zones can be written, and every
way to write them is read as them, in the order of the zones; the text of a zone is read as
the zone; and a number of more than 32 bits is never read as another one. -/
theorem reads_written :
    (∀ policy heap zones, ∃ value?, Written value? policy heap zones) ∧
    (∀ value? policy heap zones, Written value? policy heap zones →
      Config.ofVariables value? = .ok ⟨policy, Config.default.onViolation, heap, zones⟩) ∧
    (∀ z : Zone, readZone z.text.toList = .ok z) ∧
    ∀ n text, Padded (NumberText n) text → UInt32.size ≤ n →
      readWord text = .error ⟨String.ofList (Text.trim text), .tooLarge⟩ := by
  refine ⟨exists_written, fun value? policy heap zones => ofVariables_of_written, readZone_text, ?_⟩
  intro n text hnumber hlarge
  rw [readWord_of_padded hnumber, if_neg (Nat.not_lt.mpr hlarge)]

/-- A word with a capital, blanks around it, both bases, a leading zero, underscores, and a
list with an empty item at its end. -/
theorem reads_written_forbid :
    Config.ofVariables (fun name =>
      if name = strictVariable then some " YeS "
      else if name = heapBaseVariable then some "0X2000_0000"
      else if name = heapSizeVariable then some "065_536 "
      else if name = reserveVariable then some "0x1000:0x100, 0x8000 : 4096,"
      else none) =
        .ok ⟨.forbid, .exit, ⟨0x20000000, 65536⟩, [⟨0x1000, 0x100⟩, ⟨0x8000, 4096⟩]⟩ ∧
      readWord "0x1_0000_0000".toList = .error ⟨"0x1_0000_0000", .tooLarge⟩ := by
  have hspace : ∀ c ∈ [' '], Text.isBlank c = true := List.forall_mem_singleton.mpr rfl
  have hdecimal := Base.denotes_toDigits .decimal
  have hhexadecimal := Base.denotes_toDigits .hexadecimal
  have hstrict : PolicyText .forbid "YeS".toList :=
    ⟨"yes", by decide, .cons (.inr rfl) (.cons (.inl rfl) (.cons (.inr rfl) .nil))⟩
  have hbase : NumberText 0x20000000 "0X2000_0000".toList :=
    .intro .capital (.digit (.digit (.digit (.digit (.underscore (.refl ['0', '0', '0', '0']))))))
      (hhexadecimal 0x20000000)
  have hsize : NumberText 65536 "065_536".toList :=
    .intro .decimal (.digit (.digit (.digit (.underscore (.refl ['5', '3', '6'])))))
      ((hdecimal 65536).leftpad 6)
  have hfirst : ItemText (some ⟨0x1000, 0x100⟩) ("0x1000".toList ++ ':' :: "0x100".toList) :=
    .pair (.of_self (.intro .small (.refl _) (hhexadecimal 0x1000)))
      (.of_self (.intro .small (.refl _) (hhexadecimal 0x100)))
  have hsecond : ItemText (some ⟨0x8000, 4096⟩) (" 0x8000 ".toList ++ ':' :: " 4096".toList) :=
    .pair
      ⟨[' '], _, [' '], hspace, .intro .small (.refl _) (hhexadecimal 0x8000), hspace, rfl⟩
      ⟨[' '], _, [], hspace, .intro .decimal (.refl _) (hdecimal 4096), by simp, rfl⟩
  have hlast : ItemText none [] := .blank (by simp)
  have hlarge : NumberText 0x100000000 "0x1_0000_0000".toList :=
    .intro .small (.digit (.underscore (.digit (.digit (.digit (.digit (.underscore
      (.refl ['0', '0', '0', '0'])))))))) (hhexadecimal 0x100000000)
  obtain ⟨-, hread, -, hrefused⟩ := reads_written
  refine ⟨hread _ .forbid ⟨0x20000000, 65536⟩ [⟨0x1000, 0x100⟩, ⟨0x8000, 4096⟩] ?_,
    hrefused _ _ (.of_self hlarge) (by decide)⟩
  exact {
    strict := ⟨_, rfl, [' '], _, [' '], hspace, hstrict, hspace, rfl⟩
    heapBase := ⟨_, rfl, .of_self hbase⟩
    heapSize := ⟨_, rfl, [], _, [' '], by simp, hsize, hspace, rfl⟩
    reserve := ⟨_, rfl, _, _, .cons hfirst (.cons hsecond (.cons hlast .nil)), rfl, rfl⟩ }

end RegionGuard
