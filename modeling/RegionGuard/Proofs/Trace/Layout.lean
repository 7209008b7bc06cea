import RegionGuard.Trace.Parser
import RegionGuard.Proofs.Text.Split
import RegionGuard.Proofs.Text.Numeral

/-!
# How a trace can be written

A statement is written as its keyword and its arguments, numbers in decimal.  The words of
a line are kept apart by spaces and tabs, as many as one likes; a line may have a comment
behind them, or nothing but a comment; and a line ends in the manner of either system,
the last one perhaps not at all.

Everything here is data that carries what makes it well-formed, so every value of
`Layout` is a text that somebody might write.
-/

namespace RegionGuard.Trace

/-! ## Words -/

/-- An ASCII letter. -/
def IsLetter (c : Char) : Prop :=
  'A' ≤ c ∧ c ≤ 'Z' ∨ 'a' ≤ c ∧ c ≤ 'z'

/-- An ASCII digit. -/
def IsDigit (c : Char) : Prop :=
  '0' ≤ c ∧ c ≤ '9'

/-- A letter or an underscore, and behind it letters, digits and underscores. -/
inductive NameLike : List Char → Prop
  | intro {c : Char} {rest : List Char} (first : IsLetter c ∨ c = '_')
      (others : ∀ d ∈ rest, IsLetter d ∨ IsDigit d ∨ d = '_') : NameLike (c :: rest)

/-- A number in decimal, a minus sign in front if it is negative. -/
def decimal (n : Int) : List Char :=
  if n < 0 then '-' :: Nat.toDigits 10 n.natAbs else Nat.toDigits 10 n.natAbs

/-- An argument of a statement. -/
inductive Argument
  | name (text : String)
  | word (n : UInt32)
  | offset (n : Int32)
  | access (kind : Access)
  | value (n : Int64)
  | state (expected : PointerState)

namespace Argument

/-- How an argument is written. -/
def text : Argument → List Char
  | name text => text.toList
  | word n => decimal n.toNat
  | offset n => decimal n.toInt
  | access kind => kind.word.toList
  | value n => decimal n.toInt
  | state expected => expected.word.toList

/-- What can be read back: names of pointers, and all values but the least one. -/
def Writable : Argument → Prop
  | name text => NameLike text.toList
  | value n => n ≠ Int64.minValue
  | _ => True

end Argument

namespace Statement

/-- The keyword of a statement. -/
def keyword : Statement → Keyword
  | alloc .. => .alloc
  | calloc .. => .calloc
  | realloc .. => .realloc
  | free .. => .free
  | assign .. => .assign
  | region .. => .region
  | unregister .. => .unregister
  | advance .. => .advance
  | load .. => .load
  | store .. => .store
  | expect .. => .expect
  | expectLoad .. => .expectLoad

/-- The arguments of a statement, in their order. -/
def arguments : Statement → List Argument
  | alloc name size => [.name name, .word size]
  | calloc name count size => [.name name, .word count, .word size]
  | realloc name size => [.name name, .word size]
  | free name => [.name name]
  | assign name addr => [.name name, .word addr]
  | region addr size => [.word addr, .word size]
  | unregister addr => [.word addr]
  | advance name base offset => [.name name, .name base, .offset offset]
  | load name offset access => [.name name, .offset offset, .access access]
  | store name offset access value =>
    [.name name, .offset offset, .access access, .value value]
  | expect name state => [.name name, .state state]
  | expectLoad name offset access value =>
    [.name name, .offset offset, .access access, .value value]

/-- Every argument can be read back. -/
def Writable (s : Statement) : Prop :=
  ∀ a ∈ s.arguments, a.Writable

end Statement

/-! ## Lines -/

/-- What may stand between words. -/
inductive Blank
  | space
  | tab

/-- The character. -/
def Blank.char : Blank → Char
  | space => ' '
  | tab => '\t'

/-- Any number of blanks. -/
def spaced (blanks : List Blank) : List Char :=
  blanks.map Blank.char

/-- At least one blank. -/
structure Gap where
  /-- The first one. -/
  first : Blank
  /-- The other ones. -/
  others : List Blank

/-- Words with a gap in front of each. -/
def spread (gap : Nat → Gap) : List (List Char) → List Char
  | [] => []
  | word :: words =>
    spaced ((gap 0).first :: (gap 0).others) ++ (word ++ spread (fun i => gap (i + 1)) words)

/-- A statement and the gaps in its line. -/
structure Entry where
  /-- The statement. -/
  statement : Statement
  /-- It can be read back. -/
  writable : statement.Writable
  /-- The gap in front of each argument. -/
  gap : Nat → Gap

/-- The keyword and the arguments. -/
def Entry.text (e : Entry) : List Char :=
  e.statement.keyword.word.toList ++ spread e.gap (e.statement.arguments.map Argument.text)

/-- A remark in one line. -/
structure Comment where
  /-- What stands behind the number sign. -/
  text : List Char
  /-- It does not end the line. -/
  one_line : '\n' ∉ text

/-- A line without its end. -/
structure Row where
  /-- The blanks at the front. -/
  front : List Blank
  /-- The statement, unless there is none. -/
  entry : Option Entry
  /-- The blanks behind the statement. -/
  back : List Blank
  /-- The comment, unless there is none. -/
  comment : Option Comment

namespace Row

/-- What stands before the comment. -/
def code (r : Row) : List Char :=
  spaced r.front ++ (r.entry.elim [] Entry.text ++ spaced r.back)

/-- The comment with its number sign. -/
def remark (r : Row) : List Char :=
  r.comment.elim [] fun comment => '#' :: comment.text

/-- The characters of the line. -/
def text (r : Row) : List Char :=
  r.code ++ r.remark

end Row

/-- How a line ends. -/
inductive LineEnd
  | lf
  | crlf

/-- What stands before the line feed. -/
def LineEnd.carriage : LineEnd → List Char
  | lf => []
  | crlf => ['\r']

/-- A trace as it is written. -/
structure Layout where
  /-- The lines that are ended. -/
  rows : List (Row × LineEnd)
  /-- A last line that is not, unless there is none. -/
  last : Option Row

namespace Layout

/-- The characters of the whole text. -/
def text (l : Layout) : List Char :=
  l.rows.flatMap (fun (row, stop) => row.text ++ stop.carriage ++ ['\n']) ++ l.last.elim [] Row.text

/-- All lines in their order. -/
def allRows (l : Layout) : List Row :=
  l.rows.map Prod.fst ++ l.last.toList

/-- The statements in their order. -/
def statements (l : Layout) : List Statement :=
  l.allRows.filterMap fun row => row.entry.map Entry.statement

end Layout

/-- The statements of lines that are numbered from `number` on. -/
def numbered (number : Nat) (rows : List Row) : List Line :=
  (rows.zipIdx number).filterMap fun (row, n) => row.entry.map fun entry => ⟨n, entry.statement⟩

/-- The statements of a trace with the numbers of their lines, from 1 on. -/
def Layout.lines (l : Layout) : List Line :=
  numbered 1 l.allRows

/-! ## Characters of words -/

/-- A character that words are made of. -/
def IsTokenChar (c : Char) : Prop :=
  IsLetter c ∨ IsDigit c ∨ c = '_' ∨ c = '-'

instance (c : Char) : Decidable (IsLetter c) :=
  inferInstanceAs (Decidable (_ ∨ _))

instance (c : Char) : Decidable (IsDigit c) :=
  inferInstanceAs (Decidable (_ ∧ _))

instance (c : Char) : Decidable (IsTokenChar c) :=
  inferInstanceAs (Decidable (_ ∨ _))

/-- A text that stays one word. -/
structure Token (text : List Char) : Prop where
  ne_nil : text ≠ []
  chars : ∀ c ∈ text, IsTokenChar c

variable {c : Char} {text : List Char}

theorem bounds_of_range {first last : Char} (h : first ≤ c ∧ c ≤ last) (hfirst : 0x2d ≤ first.toNat)
    (hlast : last.toNat ≤ 0x7a) : 0x2d ≤ c.toNat ∧ c.toNat ≤ 0x7a :=
  ⟨Nat.le_trans hfirst (UInt32.le_iff_toNat_le.mp h.1),
    Nat.le_trans (UInt32.le_iff_toNat_le.mp h.2) hlast⟩

/-- All of them lie from the minus sign to the last small letter. -/
theorem IsTokenChar.bounds (h : IsTokenChar c) : 0x2d ≤ c.toNat ∧ c.toNat ≤ 0x7a := by
  rcases h with (hupper | hlower) | hdigit | rfl | rfl
  · exact bounds_of_range hupper (by decide) (by decide)
  · exact bounds_of_range hlower (by decide) (by decide)
  · exact bounds_of_range hdigit (by decide) (by decide)
  · decide
  · decide

/-- No character of a token is a blank. -/
theorem IsTokenChar.not_blank (h : IsTokenChar c) : Text.isBlank c = false := by
  have hbounds := h.bounds
  exact Text.isBlank_of_visible (by omega) (by omega)

/-- Nor is it a character of a lower number, such as the number sign. -/
theorem IsTokenChar.ne_of_lt (h : IsTokenChar c) {d : Char} (hd : d.toNat < 0x2d) : c ≠ d := by
  intro heq
  have hbounds := h.bounds
  rw [heq] at hbounds
  omega

/-- Names are tokens. -/
theorem NameLike.token (h : NameLike text) : Token text := by
  obtain ⟨hfirst, hothers⟩ := h
  refine ⟨List.cons_ne_nil _ _, ?_⟩
  intro d hd
  rcases List.mem_cons.mp hd with rfl | hd'
  · rcases hfirst with hletter | hunderscore
    · exact .inl hletter
    · exact .inr (.inr (.inl hunderscore))
  · rcases hothers d hd' with hletter | hdigit | hunderscore
    · exact .inl hletter
    · exact .inr (.inl hdigit)
    · exact .inr (.inr (.inl hunderscore))

/-- So are numbers, with a minus sign or without. -/
theorem token_decimal (n : Int) : Token (decimal n) := by
  have hdigits : ∀ c ∈ Nat.toDigits 10 n.natAbs, IsTokenChar c := by
    intro c hc
    have hdigit := Text.isDigit_of_mem_toDigits hc
    have hrange : '0' ≤ c ∧ c ≤ '9' := by simpa [Char.isDigit, Char.le_def] using hdigit
    exact .inr (.inl hrange)
  unfold decimal
  split
  · refine ⟨List.cons_ne_nil _ _, ?_⟩
    intro c hc
    rcases List.mem_cons.mp hc with rfl | hc'
    · exact .inr (.inr (.inr rfl))
    · exact hdigits c hc'
  · exact ⟨Nat.toDigits_ne_nil, hdigits⟩

/-- A word is a token if a check of all its characters says so. -/
theorem Token.of_all (hne : text.isEmpty = false)
    (hall : (text.all fun c => decide (IsTokenChar c)) = true) : Token text where
  ne_nil := List.isEmpty_eq_false_iff.mp hne
  chars c hc := of_decide_eq_true (List.all_eq_true.mp hall c hc)

/-- Keywords are tokens, and so are the words for kinds of access and for states. -/
theorem token_keyword (keyword : Keyword) : Token keyword.word.toList := by
  cases keyword <;> exact .of_all rfl rfl

theorem token_access (kind : Access) : Token kind.word.toList := by
  rcases kind with ⟨_ | _ | _, _ | _⟩ <;> exact .of_all rfl rfl

theorem token_state (expected : PointerState) : Token expected.word.toList := by
  cases expected <;> exact .of_all rfl rfl

/-- So every argument that can be read back is one. -/
theorem Argument.Writable.token {a : Argument} (h : a.Writable) : Token a.text := by
  cases a with
  | name text => exact NameLike.token h
  | word n => exact token_decimal n.toNat
  | offset n => exact token_decimal n.toInt
  | access kind => exact token_access kind
  | value n => exact token_decimal n.toInt
  | state expected => exact token_state expected

end RegionGuard.Trace
