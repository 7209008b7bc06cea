import RegionGuard.Proofs.Address.Word
import RegionGuard.Proofs.Trace.Layout
import RegionGuard.Proofs.Trace.SignedNumber

/-!
# Reading back what has been written

Whatever a trace looks like, its reader finds the statements that were written, each with
the number of its line.  An argument is read back from its own text; a line is cut into
the words that it was put together from, because no word contains a blank or a number
sign; and the text is cut into its lines, because only their ends contain a line feed.
-/

namespace RegionGuard.Trace

variable {text : List Char}

/-! ## Arguments -/

/-- A name by the rule of the layout is a name to the reader. -/
theorem isName_of_nameLike (h : NameLike text) : isName text = true := by
  have hletter : ∀ c : Char, IsLetter c → c.isAlpha = true := by
    intro c hc
    rcases hc with hupper | hlower
    · have hupper' : c.isUpper = true := decide_eq_true hupper
      exact Bool.or_eq_true_iff.mpr (.inl hupper')
    · have hlower' : c.isLower = true :=
        Bool.and_eq_true_iff.mpr ⟨decide_eq_true hlower.1, decide_eq_true hlower.2⟩
      exact Bool.or_eq_true_iff.mpr (.inr hlower')
  have hdigit : ∀ c : Char, IsDigit c → c.isDigit = true := fun c hc =>
    Bool.and_eq_true_iff.mpr ⟨decide_eq_true hc.1, decide_eq_true hc.2⟩
  obtain ⟨hfirst, hothers⟩ := h
  simp only [isName, isNameStart, isNameRest, Char.isAlphanum, Bool.and_eq_true, Bool.or_eq_true,
    List.all_eq_true, beq_iff_eq]
  refine ⟨hfirst.imp_left (hletter _), fun d hd => ?_⟩
  rcases hothers d hd with hd | hd | hd
  · exact .inl (.inl (hletter d hd))
  · exact .inl (.inr (hdigit d hd))
  · exact .inr hd

theorem readName_toList {name : String} (h : NameLike name.toList) :
    readName name.toList = .ok name := by
  rw [readName, if_pos (isName_of_nameLike h), String.ofList_toList]

/-- A number that is not negative is written in its digits alone. -/
theorem decimal_natCast (n : Nat) : decimal n = Nat.toDigits 10 n := by
  rw [decimal, if_neg (by omega), Int.natAbs_natCast]

/-- An address or a size is read back from its decimal form. -/
theorem readSize_decimal (n : UInt32) : readSize (decimal n.toNat) = .ok n := by
  have hnumber : NumberText n.toNat (decimal n.toNat) := by
    rw [decimal_natCast]
    exact .intro .decimal (.refl _) (Text.Base.denotes_toDigits .decimal n.toNat)
  rw [readSize, readWord_of_padded_toNat (.of_self hnumber)]
  rfl

/-- The decimal form is one of those in which a signed number should be written. -/
theorem numeral_decimal (n : Int) : Numeral (decimal n) n := by
  have hmagnitude : Magnitude (Nat.toDigits 10 n.natAbs) n.natAbs :=
    .intro .decimal (Text.Base.denotes_toDigits .decimal n.natAbs)
  by_cases hneg : n < 0
  · have hvalue : -(n.natAbs : Int) = n := by omega
    have hnumeral := Numeral.negative hmagnitude
    rw [hvalue] at hnumeral
    rw [decimal, if_pos hneg]
    exact hnumeral
  · have hvalue : (n.natAbs : Int) = n := by omega
    have hnumeral := Numeral.plain hmagnitude
    rw [hvalue] at hnumeral
    rw [decimal, if_neg hneg]
    exact hnumeral

/-- So it is read back, as long as its digits are in range. -/
theorem readSigned_decimal {n : Int} (h : n.natAbs < Text.int64Half) :
    readSigned (decimal n) = .ok (Int64.ofInt n) := by
  rw [readSigned_of_numeral (numeral_decimal n), if_pos h]

/-- Every value of 64 bits is read back but the least one, whose digits are too large. -/
theorem readValue_decimal {n : Int64} (h : n ≠ Int64.minValue) :
    readValue (decimal n.toInt) = .ok n := by
  have hfrom : -2 ^ 63 ≤ n.toInt := n.le_toInt
  have hto : n.toInt < 2 ^ 63 := n.toInt_lt
  have hleast : n.toInt ≠ -2 ^ 63 := fun heq => h (Int64.toInt_inj.mp heq)
  have hmagnitude : n.toInt.natAbs < Text.int64Half := by
    show n.toInt.natAbs < 9223372036854775808
    omega
  rw [readValue, readSigned_decimal hmagnitude, Int64.ofInt_toInt]
  rfl

/-- Every offset is read back, the least one included, because it is far from the least value of
64 bits. -/
theorem readOffset_decimal (n : Int32) : readOffset (decimal n.toInt) = .ok n := by
  have hfrom : -2 ^ 31 ≤ n.toInt := n.le_toInt
  have hto : n.toInt < 2 ^ 31 := n.toInt_lt
  have hmagnitude : n.toInt.natAbs < Text.int64Half := by
    show n.toInt.natAbs < 9223372036854775808
    omega
  have hwide : Int64.ofInt n.toInt = n.toInt64 := rfl
  have hmost : ¬ Int32.maxValue.toInt < n.toInt := Int.not_lt.mpr n.toInt_le
  have hleast : ¬ n.toInt < Int32.minValue.toInt := Int.not_lt.mpr n.minValue_le_toInt
  rw [readOffset, readValue, readSigned_decimal hmagnitude, hwide]
  simp only [Except.mapError, Int32.toInt_toInt64, if_neg hmost, if_neg hleast,
    Int32.toInt32_toInt64]

theorem readAccess_word (kind : Access) : readAccess kind.word.toList = .ok kind := by
  rcases kind with ⟨_ | _ | _, _ | _⟩ <;> rfl

theorem readState_word (expected : PointerState) :
    readState expected.word.toList = .ok expected := by
  cases expected <;> rfl

/-! ## Statements -/

theorem ofWord?_word (keyword : Keyword) :
    Keyword.ofWord? keyword.word.toList = some keyword := by
  cases keyword <;> rfl

/-- A statement is read back from its words. -/
theorem readStatement_words {s : Statement} (h : s.Writable) :
    readStatement s.keyword.word.toList (s.arguments.map Argument.text) = .ok s := by
  unfold Statement.Writable at h
  rw [readStatement, ofWord?_word]
  cases s <;>
    simp_all [Statement.keyword, Statement.arguments, Argument.Writable, Argument.text,
      readArguments, readName_toList, readSize_decimal, readOffset_decimal, readAccess_word,
      readState_word, readValue_decimal] <;> rfl

/-! ## Lines -/

theorem Token.not_blank {word : List Char} (h : Token word) :
    ∀ c ∈ word, Text.isBlank c = false :=
  fun c hc => (h.chars c hc).not_blank

theorem isBlank_of_mem_spaced {blanks : List Blank} : ∀ c ∈ spaced blanks, Text.isBlank c = true := by
  intro c hc
  obtain ⟨blank, -, rfl⟩ := List.mem_map.mp hc
  cases blank <;> rfl

/-- Words behind gaps are found again, whatever the gaps are. -/
theorem words_spread {word tail : List Char} {words : List (List Char)} (hword : Token word)
    (hwords : ∀ w ∈ words, Token w) (htail : ∀ c ∈ tail, Text.isBlank c = true)
    (gap : Nat → Gap) :
    Text.words (word ++ (spread gap words ++ tail)) = word :: words := by
  induction words generalizing word gap with
  | nil => exact Text.words_append_blanks hword.ne_nil hword.not_blank htail
  | cons next words ih =>
      have hnext := hwords next List.mem_cons_self
      have hrest := ih hnext (fun w hw => hwords w (List.mem_cons_of_mem _ hw))
        (fun i => gap (i + 1))
      have hfirst : Text.isBlank (gap 0).first.char = true := by
        cases (gap 0).first <;> rfl
      have htext : word ++ (spread gap (next :: words) ++ tail) = word ++ (gap 0).first.char ::
          (spaced (gap 0).others ++ (next ++ (spread (fun i => gap (i + 1)) words ++ tail))) := by
        simp [spread, spaced]
      -- the first blank of the gap ends the word, and the other ones stand before the next
      rw [htext, Text.words_append hword.ne_nil hword.not_blank hfirst,
        Text.words_blanks_append isBlank_of_mem_spaced, hrest]

/-- The words of a statement. -/
def Statement.words (s : Statement) : List (List Char) :=
  s.keyword.word.toList :: s.arguments.map Argument.text

/-- All words of a statement that can be read back are tokens, so gaps part them. -/
theorem Statement.Writable.token {s : Statement} (h : s.Writable) : ∀ w ∈ s.words, Token w := by
  intro w hw
  rcases List.mem_cons.mp hw with rfl | hw'
  · exact token_keyword s.keyword
  · obtain ⟨a, ha, rfl⟩ := List.mem_map.mp hw'
    exact (h a ha).token

/-- The words of the code of a line, with blanks behind it. -/
theorem words_code (r : Row) {fin : List Char} (hfin : ∀ c ∈ fin, Text.isBlank c = true) :
    Text.words (r.code ++ fin) = r.entry.elim [] fun e => e.statement.words := by
  have htail : ∀ c ∈ spaced r.back ++ fin, Text.isBlank c = true := by
    intro c hc
    rcases List.mem_append.mp hc with hback | hend
    · exact isBlank_of_mem_spaced c hback
    · exact hfin c hend
  rw [Row.code, List.append_assoc, List.append_assoc,
    Text.words_blanks_append isBlank_of_mem_spaced]
  cases r.entry with
  | none => exact Text.words_of_forall_blank htail
  | some e =>
      have htoken := e.writable.token
      rw [Option.elim_some, Option.elim_some, Entry.text, List.append_assoc]
      exact words_spread (htoken _ List.mem_cons_self)
        (fun w hw => htoken w (List.mem_cons_of_mem _ hw)) htail e.gap

/-- What stands in the code of a line is in one of its words or is a blank. -/
theorem mem_spread {gap : Nat → Gap} {words : List (List Char)} {c : Char}
    (hc : c ∈ spread gap words) : (∃ w ∈ words, c ∈ w) ∨ ∃ blank : Blank, c = blank.char := by
  induction words generalizing gap with
  | nil => cases hc
  | cons word words ih =>
      rw [spread, List.mem_append, List.mem_append] at hc
      rcases hc with hblank | hword | hlater
      · obtain ⟨blank, -, rfl⟩ := List.mem_map.mp hblank
        exact .inr ⟨blank, rfl⟩
      · exact .inl ⟨word, List.mem_cons_self, hword⟩
      · refine (ih hlater).imp_left ?_
        intro ⟨w, hw, hmem⟩
        exact ⟨w, List.mem_cons_of_mem _ hw, hmem⟩

/-- Code consists of words and blanks. -/
theorem mem_code {r : Row} {c : Char} (hc : c ∈ r.code) :
    IsTokenChar c ∨ ∃ blank : Blank, c = blank.char := by
  have hspaced : ∀ blanks, c ∈ spaced blanks → ∃ blank : Blank, c = blank.char := by
    intro blanks hmem
    obtain ⟨blank, -, rfl⟩ := List.mem_map.mp hmem
    exact ⟨blank, rfl⟩
  rw [Row.code, List.mem_append, List.mem_append] at hc
  rcases hc with hfront | hentry | hback
  · exact .inr (hspaced _ hfront)
  · cases hsome : r.entry with
    | none =>
        rw [hsome] at hentry
        cases hentry
    | some e =>
        rw [hsome, Option.elim_some, Entry.text, List.mem_append] at hentry
        have htoken := e.writable.token
        rcases hentry with hkeyword | hspread
        · exact .inl ((htoken _ List.mem_cons_self).chars c hkeyword)
        · refine (mem_spread hspread).imp_left ?_
          intro ⟨w, hw, hmem⟩
          exact (htoken w (List.mem_cons_of_mem _ hw)).chars c hmem
  · exact .inr (hspaced _ hback)

/-- The code of a line has no number sign, so its comment starts where it should, and no line
feed. -/
theorem ne_of_mem_code {r : Row} {c d : Char} (hc : c ∈ r.code) (hd : d = '#' ∨ d = '\n') :
    c ≠ d := by
  rcases mem_code hc with htoken | ⟨blank, rfl⟩
  · refine htoken.ne_of_lt ?_
    rcases hd with rfl | rfl <;> decide
  · rcases hd with rfl | rfl <;> cases blank <;> decide

/-- Nor is there a line feed in its comment, so a row is one line. -/
theorem not_mem_text (r : Row) : '\n' ∉ r.text := by
  intro hmem
  rcases List.mem_append.mp hmem with hcode | hremark
  · exact ne_of_mem_code hcode (.inr rfl) rfl
  · unfold Row.remark at hremark
    cases hsome : r.comment with
    | none =>
        rw [hsome] at hremark
        cases hremark
    | some comment =>
        rw [hsome, Option.elim_some, List.mem_cons] at hremark
        rcases hremark with hsign | htext
        · exact absurd hsign (by decide)
        · exact comment.one_line htext

/-- The words of a line are those of its statement, whatever the comment says. -/
theorem lineWords_text (r : Row) {fin : List Char} (hfin : ∀ c ∈ fin, Text.isBlank c = true) :
    lineWords (r.text ++ fin) = r.entry.elim [] fun e => e.statement.words := by
  have hcode : ∀ c ∈ r.code, decide (c ≠ '#') = true := by
    intro c hc
    rw [decide_eq_true_eq]
    exact ne_of_mem_code hc (.inl rfl)
  rw [lineWords, Row.text, List.append_assoc, List.takeWhile_append_of_pos hcode]
  refine words_code r fun c hc => ?_
  unfold Row.remark at hc
  cases hsome : r.comment with
  | none =>
      rw [hsome] at hc
      exact hfin c ((List.takeWhile_prefix _).subset hc)
  | some comment =>
      rw [hsome] at hc
      cases hc

/-- A line without a statement is passed over, and another one is read. -/
theorem readLines_text (r : Row) {fin : List Char} (hfin : ∀ c ∈ fin, Text.isBlank c = true)
    (number : Nat) (texts : List (List Char)) :
    readLines number ((r.text ++ fin) :: texts) =
      match r.entry with
      | none => readLines (number + 1) texts
      | some e => (readLines (number + 1) texts).map (⟨number, e.statement⟩ :: ·) := by
  rw [readLines, lineWords_text r hfin]
  cases r.entry with
  | none => rfl
  | some e =>
      have hread := readStatement_words e.writable
      simp only [Option.elim_some, Statement.words, hread]

/-- Lines without a statement count, but have no place in the result. -/
theorem numbered_cons (number : Nat) (r : Row) (rows : List Row) :
    numbered number (r :: rows) =
      match r.entry with
      | none => numbered (number + 1) rows
      | some e => ⟨number, e.statement⟩ :: numbered (number + 1) rows := by
  rw [numbered, List.zipIdx_cons, List.filterMap_cons]
  dsimp only
  cases r.entry <;> rfl

/-! ## Whole traces -/

/-- What follows the last line feed is read as a line of its own, or not at all if it is empty.
-/
theorem readLines_last (number : Nat) (last : Option Row) :
    readLines number (Text.lines (last.elim [] Row.text)) = .ok (numbered number last.toList) := by
  cases last with
  | none => rfl
  | some r =>
      have hread := @readLines_text r [] (fun c hc => by cases hc) number []
      rw [List.append_nil] at hread
      rw [Option.elim_some, Text.lines_of_not_mem (not_mem_text r), hread, Option.toList_some,
        numbered_cons]
      cases r.entry <;> rfl

/-- The lines are read one after the other; the number goes up with each. -/
theorem readLines_layout (number : Nat) (rows : List (Row × LineEnd)) (last : Option Row) :
    readLines number (Text.lines (Layout.text ⟨rows, last⟩)) =
      .ok (numbered number (Layout.allRows ⟨rows, last⟩)) := by
  induction rows generalizing number with
  | nil => exact readLines_last number last
  | cons row rows ih =>
      obtain ⟨r, stop⟩ := row
      have hstop : ∀ c ∈ stop.carriage, Text.isBlank c = true := by
        intro c hc
        cases stop with
        | lf => cases hc
        | crlf =>
            rw [List.mem_singleton.mp hc]
            rfl
      have hline : '\n' ∉ r.text ++ stop.carriage := by
        intro hmem
        rcases List.mem_append.mp hmem with htext | hcarriage
        · exact not_mem_text r htext
        · cases stop <;> revert hcarriage <;> decide
      have htext : Layout.text ⟨(r, stop) :: rows, last⟩ =
          (r.text ++ stop.carriage) ++ '\n' :: Layout.text ⟨rows, last⟩ := by
        simp [Layout.text]
      have hrows : Layout.allRows ⟨(r, stop) :: rows, last⟩ = r :: Layout.allRows ⟨rows, last⟩ := rfl
      rw [htext, hrows, Text.lines_append hline, readLines_text r hstop, numbered_cons, ih]
      cases r.entry <;> rfl

/-- Numbers aside, the statements are those of the rows, in order. -/
theorem statement_numbered (number : Nat) (rows : List Row) :
    (numbered number rows).map Line.statement =
      rows.filterMap fun row => row.entry.map Entry.statement := by
  induction rows generalizing number with
  | nil => rfl
  | cons r rows ih =>
      have hrest := ih (number + 1)
      rw [numbered_cons, List.filterMap_cons]
      cases r.entry with
      | none => exact hrest
      | some e => exact congrArg (e.statement :: ·) hrest

/-- However a trace is laid out, reading it gives its statements in their order, each with
the number of its line. -/
theorem parse_layout (l : Layout) :
    parse (String.ofList l.text) = .ok l.lines ∧ l.lines.map Line.statement = l.statements := by
  refine ⟨?_, statement_numbered 1 l.allRows⟩
  rw [parse, String.toList_ofList]
  exact readLines_layout 1 l.rows l.last

example : parse "\tfree p # done\r\n\n  let q 16" =
    .ok [⟨1, .free "p"⟩, ⟨3, .assign "q" 16⟩] := by rfl

end RegionGuard.Trace
