import RegionGuard.Text.Split
import Mathlib.Data.List.Basic

/-!
# Cutting what has been put together

A text that has been put together from pieces is cut into these pieces again, if no piece
contains a separator.  Runs of blanks between words count as one, and those at either end
do not count.
-/

namespace RegionGuard.Text

variable {sep : Char → Bool} {piece line word blanks text : List Char}

/-! ## Fields -/

theorem fields_of_forall_not (h : ∀ c ∈ piece, sep c = false) : fields sep piece = [piece] := by
  induction piece with
  | nil => rfl
  | cons c rest ih =>
      have hc := h c List.mem_cons_self
      have hrest := ih fun d hd => h d (List.mem_cons_of_mem _ hd)
      simp only [fields, hc, Bool.false_eq_true, if_false, hrest]

/-- A separator ends the first piece, and the rest is cut on its own. -/
theorem fields_append (h : ∀ c ∈ piece, sep c = false) {s : Char} (hs : sep s = true)
    (rest : List Char) : fields sep (piece ++ s :: rest) = piece :: fields sep rest := by
  induction piece with
  | nil => simp only [List.nil_append, fields, hs, if_true]
  | cons c piece ih =>
      have hc := h c List.mem_cons_self
      have hpiece := ih fun d hd => h d (List.mem_cons_of_mem _ hd)
      simp only [List.cons_append, fields, hc, Bool.false_eq_true, if_false, hpiece]

/-! ## Lines -/

theorem ne_newline (h : '\n' ∉ line) : ∀ c ∈ line, (c == '\n') = false := by
  intro c hc
  rw [beq_eq_false_iff_ne]
  intro heq
  rw [heq] at hc
  exact h hc

theorem lines_of_not_mem (h : '\n' ∉ line) : lines line = [line] :=
  fields_of_forall_not (ne_newline h)

/-- A line feed ends the first line. -/
theorem lines_append (h : '\n' ∉ line) (rest : List Char) :
    lines (line ++ '\n' :: rest) = line :: lines rest :=
  fields_append (ne_newline h) rfl rest

/-! ## Words -/

/-- Blanks in front of the first word do not count. -/
theorem words_blanks_append (h : ∀ c ∈ blanks, isBlank c = true) (rest : List Char) :
    words (blanks ++ rest) = words rest := by
  induction blanks with
  | nil => rfl
  | cons b blanks ih =>
      have hb := h b List.mem_cons_self
      rw [← ih fun c hc => h c (List.mem_cons_of_mem _ hc)]
      simp only [words, List.cons_append, fields, hb, if_true]
      rfl

/-- Blanks have no words. -/
theorem words_of_forall_blank (h : ∀ c ∈ blanks, isBlank c = true) : words blanks = [] := by
  have hwords := words_blanks_append h []
  rw [List.append_nil] at hwords
  exact hwords

theorem filter_word (hne : word ≠ []) (pieces : List (List Char)) :
    (word :: pieces).filter (!·.isEmpty) = word :: pieces.filter (!·.isEmpty) := by
  simp [hne]

/-- The first blank ends a word. -/
theorem words_append (hne : word ≠ []) (hword : ∀ c ∈ word, isBlank c = false) {b : Char}
    (hb : isBlank b = true) (rest : List Char) :
    words (word ++ b :: rest) = word :: words rest := by
  rw [words, fields_append hword hb, filter_word hne]
  rfl

/-- Blanks behind the last word do not count. -/
theorem words_append_blanks (hne : word ≠ []) (hword : ∀ c ∈ word, isBlank c = false)
    (hblanks : ∀ c ∈ blanks, isBlank c = true) : words (word ++ blanks) = [word] := by
  cases blanks with
  | nil =>
      rw [List.append_nil, words, fields_of_forall_not hword, filter_word hne]
      rfl
  | cons b blanks =>
      have hb := hblanks b List.mem_cons_self
      have hrest := words_of_forall_blank fun c hc => hblanks c (List.mem_cons_of_mem _ hc)
      rw [words_append hne hword hb, hrest]

/-- Words with one blank in front of each but the first are found again. -/
theorem words_flatMap {b : Char} (hb : isBlank b = true) {rest : List (List Char)}
    (h : ∀ w ∈ word :: rest, w ≠ [] ∧ ∀ c ∈ w, isBlank c = false) :
    words (word ++ rest.flatMap (b :: ·)) = word :: rest := by
  induction rest generalizing word with
  | nil =>
      obtain ⟨hne, hword⟩ := h word List.mem_cons_self
      exact words_append_blanks hne hword (by simp)
  | cons next rest ih =>
      obtain ⟨⟨hne, hword⟩, hrest⟩ := List.forall_mem_cons.mp h
      rw [List.flatMap_cons, List.cons_append, words_append hne hword hb, ih hrest]

/-- No visible character of ASCII is a blank. -/
theorem isBlank_of_visible {c : Char} (hfirst : 0x21 ≤ c.toNat) (hlast : c.toNat ≤ 0x7e) :
    isBlank c = false := by
  simp only [isBlank, Bool.or_eq_false_iff, Bool.and_eq_false_iff, decide_eq_false_iff_not,
    beq_eq_false_iff_ne]
  omega

/-- The letters and figures of ASCII lie from the zero to the last small letter. -/
theorem bounds_of_isAlphanum {c : Char} (h : c.isAlphanum = true) :
    0x30 ≤ c.toNat ∧ c.toNat ≤ 0x7a := by
  have hkinds : c.isAlpha = true ∨ c.isDigit = true := Bool.or_eq_true_iff.mp h
  rcases hkinds with halpha | hdigit
  · have hcases : c.isUpper = true ∨ c.isLower = true := Bool.or_eq_true_iff.mp halpha
    rcases hcases with hupper | hlower
    · obtain ⟨hfirst, hlast⟩ := of_decide_eq_true hupper
      have hfirst' : 0x41 ≤ c.toNat := hfirst
      have hlast' : c.toNat ≤ 0x5a := hlast
      omega
    · obtain ⟨hfirst, hlast⟩ := Bool.and_eq_true_iff.mp hlower
      have hfirst' : 0x61 ≤ c.toNat := of_decide_eq_true hfirst
      have hlast' : c.toNat ≤ 0x7a := of_decide_eq_true hlast
      omega
  · obtain ⟨hfirst, hlast⟩ := Bool.and_eq_true_iff.mp hdigit
    have hfirst' : 0x30 ≤ c.toNat := of_decide_eq_true hfirst
    have hlast' : c.toNat ≤ 0x39 := of_decide_eq_true hlast
    omega

/-- No letter or figure of ASCII is a blank, nor is the underscore. -/
theorem isBlank_of_isAlphanum {c : Char} (h : c.isAlphanum = true ∨ c = '_') : isBlank c = false := by
  rcases h with halphanum | rfl
  · have hbounds := bounds_of_isAlphanum halphanum
    exact isBlank_of_visible (by omega) (by omega)
  · rfl

/-! ## Ends -/

/-- Nothing is taken off a text that does not start with a blank. -/
theorem trimFront_of_head? (hfirst : ∀ c ∈ text.head?, isBlank c = false) :
    trimFront text = text := by
  cases text with
  | nil => rfl
  | cons c rest =>
      have hc := hfirst c rfl
      rw [trimFront, List.dropWhile_cons_of_neg (by simp [hc])]

theorem trimFront_of_forall_blank (h : ∀ c ∈ blanks, isBlank c = true) : trimFront blanks = [] := by
  have htrim : trimFront (blanks ++ []) = trimFront [] := List.dropWhile_append_of_pos h
  rw [List.append_nil] at htrim
  exact htrim

/-- Blanks at the ends are taken away, and nothing else is if the rest starts and ends with
something else. -/
theorem trim_append {before after : List Char} (hbefore : ∀ c ∈ before, isBlank c = true)
    (hafter : ∀ c ∈ after, isBlank c = true) (hfirst : ∀ c ∈ text.head?, isBlank c = false)
    (hlast : ∀ c ∈ text.getLast?, isBlank c = false) : trim (before ++ (text ++ after)) = text := by
  have hfront : trimFront (before ++ (text ++ after)) = trimFront (text ++ after) :=
    List.dropWhile_append_of_pos hbefore
  rw [trim, hfront]
  by_cases hne : text = []
  · rw [hne, List.nil_append, trimFront_of_forall_blank hafter]
    rfl
  · have hkept : trimFront (text ++ after) = text ++ after := by
      apply trimFront_of_head?
      rw [List.head?_append_of_ne_nil text hne]
      exact hfirst
    have hback : trimFront (after.reverse ++ text.reverse) = trimFront text.reverse :=
      List.dropWhile_append_of_pos fun c hc => hafter c (List.mem_reverse.mp hc)
    have hrest : trimFront text.reverse = text.reverse := by
      apply trimFront_of_head?
      rw [List.head?_reverse]
      exact hlast
    rw [hkept, List.reverse_append, hback, hrest, List.reverse_reverse]

/-- Blanks around a text without any are taken off. -/
theorem trim_append_of_forall_not {before after : List Char}
    (hbefore : ∀ c ∈ before, isBlank c = true) (hafter : ∀ c ∈ after, isBlank c = true)
    (h : ∀ c ∈ text, isBlank c = false) : trim (before ++ (text ++ after)) = text :=
  trim_append hbefore hafter (fun c hc => h c (List.mem_of_head? hc)) fun c hc =>
    h c (List.mem_of_getLast? hc)

/-- Nothing is left of blanks alone. -/
theorem trim_of_forall_blank (h : ∀ c ∈ blanks, isBlank c = true) : trim blanks = [] := by
  rw [trim, trimFront_of_forall_blank h]
  rfl

/-! ## Pieces joined by one separator -/

/-- A text is split at the first separator, whether or not others follow. -/
theorem splitFirst?_append {s : Char} (hs : s ∉ piece) (rest : List Char) :
    splitFirst? s (piece ++ s :: rest) = some (piece, rest) := by
  induction piece with
  | nil => simp [splitFirst?]
  | cons c piece ih =>
      obtain ⟨hc, hpiece⟩ := not_or.mp (mt List.mem_cons.mpr hs)
      simp [splitFirst?, ih hpiece, Ne.symm hc]

/-- Pieces without the separator are found again between the separators. -/
theorem fields_intercalate {s : Char} (hs : sep s = true) {pieces : List (List Char)}
    (hne : pieces ≠ []) (h : ∀ piece ∈ pieces, ∀ c ∈ piece, sep c = false) :
    fields sep ([s].intercalate pieces) = pieces := by
  induction pieces with
  | nil => exact absurd rfl hne
  | cons piece rest ih =>
      obtain ⟨hpiece, hrest⟩ := List.forall_mem_cons.mp h
      cases rest with
      | nil => rw [List.intercalate_singleton, fields_of_forall_not hpiece]
      | cons next rest =>
          rw [List.intercalate_cons_cons, List.append_assoc, List.singleton_append,
            fields_append hpiece hs, ih (List.cons_ne_nil _ _) hrest]

end RegionGuard.Text
