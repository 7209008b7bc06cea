import RegionGuard.Address.Zone
import RegionGuard.Proofs.Text.Numeral
import RegionGuard.Proofs.Text.Split

/-!
# How a number of 32 bits can be written

A number is written in either base, with leading zeros and underscores as one likes, and
with blanks around it.  It is read in all these forms if it has 32 bits, and refused in all
of them if it has more.
-/

namespace RegionGuard

open Text (Base)

variable {text : List Char} {n : Nat}

/-- A text with blanks around it. -/
def Padded (inner : List Char → Prop) (text : List Char) : Prop :=
  ∃ before core after, (∀ c ∈ before, Text.isBlank c = true) ∧ inner core ∧
    (∀ c ∈ after, Text.isBlank c = true) ∧ before ++ (core ++ after) = text

/-- There may be no blanks at all. -/
theorem Padded.of_self {inner : List Char → Prop} (h : inner text) : Padded inner text :=
  ⟨[], text, [], by simp, h, by simp, by simp⟩

/-- The number `n`, which may be of any size. -/
inductive NumberText (n : Nat) : List Char → Prop
  | intro {base : Base} {mark body digits : List Char} (hmark : base.Mark mark)
      (hbody : Text.Grouped body digits) (hdigits : base.Denotes digits n) :
      NumberText n (mark ++ body)

/-! ## The characters of a number -/

theorem NumberText.ne_nil (h : NumberText n text) : text ≠ [] := by
  obtain ⟨hmark, hbody, hdigits⟩ := h
  cases hbody with
  | nil => exact absurd rfl hdigits.1
  | digit => exact List.append_ne_nil_of_right_ne_nil _ (List.cons_ne_nil _ _)
  | underscore => exact List.append_ne_nil_of_right_ne_nil _ (List.cons_ne_nil _ _)

/-- A number consists of letters, digits and underscores. -/
theorem NumberText.chars (h : NumberText n text) : ∀ c ∈ text, c.isAlphanum = true ∨ c = '_' := by
  obtain ⟨hmark, hbody, hdigits⟩ := h
  intro c hc
  rcases List.mem_append.mp hc with hc | hc
  · exact .inl (hmark.isAlphanum c hc)
  · exact (hbody.mem c hc).imp_left (hdigits.isAlphanum c)

theorem NumberText.not_blank (h : NumberText n text) : ∀ c ∈ text, Text.isBlank c = false :=
  fun c hc => Text.isBlank_of_isAlphanum (h.chars c hc)

/-- No other character stands in a number with blanks around it. -/
theorem NumberText.not_mem_padded (h : Padded (NumberText n) text) {s : Char}
    (hword : ¬ (s.isAlphanum = true ∨ s = '_')) (hblank : Text.isBlank s = false) : s ∉ text := by
  obtain ⟨before, core, after, hbefore, hnumber, hafter, rfl⟩ := h
  have hskip : ∀ blanks : List Char, (∀ c ∈ blanks, Text.isBlank c = true) → s ∉ blanks := by
    intro blanks hblanks hs
    rw [hblanks s hs] at hblank
    cases hblank
  intro hs
  rcases List.mem_append.mp hs with hs | hs
  · exact hskip _ hbefore hs
  · rcases List.mem_append.mp hs with hs | hs
    · exact hword (hnumber.chars s hs)
    · exact hskip _ hafter hs

/-! ## Reading a number -/

/-- A number is read if it has 32 bits, and is refused as too large if it has not. -/
theorem readWord_of_padded (h : Padded (NumberText n) text) :
    readWord text =
      if n < UInt32.size then .ok (UInt32.ofNat n)
      else .error ⟨String.ofList (Text.trim text), .tooLarge⟩ := by
  obtain ⟨before, core, after, hbefore, hnumber, hafter, rfl⟩ := h
  have htrim := Text.trim_append_of_forall_not hbefore hafter hnumber.not_blank
  obtain @⟨base, mark, body, digits, hmark, hbody, hdigits⟩ := hnumber
  have hunderscore : '_' ∉ digits := by
    intro hmem
    cases hdigits.isAlphanum '_' hmem
  have hletters : ∀ c ∈ body, c ≠ 'x' ∧ c ≠ 'X' := by
    intro c hc
    rcases hbody.mem c hc with hdigit | rfl
    · exact hdigits.ne_mark c hdigit
    · decide
  rw [readWord, htrim]
  simp only [Text.splitBase_append hmark hletters, hbody.filter hunderscore,
    Text.readUInt32_of_denotes hdigits]
  by_cases hlt : n < UInt32.size
  · simp only [if_pos hlt]
  · simp only [if_neg hlt]

/-- A number of 32 bits is read in every form. -/
theorem readWord_of_padded_toNat {w : UInt32} (h : Padded (NumberText w.toNat) text) :
    readWord text = .ok w := by
  rw [readWord_of_padded h, if_pos w.toNat_lt, UInt32.ofNat_toNat]

end RegionGuard
