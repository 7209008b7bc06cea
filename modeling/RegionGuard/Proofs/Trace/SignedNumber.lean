import RegionGuard.Trace.Parser
import RegionGuard.Proofs.Text.Numeral

/-!
# Signed numbers

A signed number should be a minus sign or none, the mark of a base, and digits.  What is
read differs from this in two ways.  The minus sign is taken off first and the rest is read
as a number of 64 bits, so the least value is out of reach: its magnitude is no such
number.  And the rest is read by a rule that knows signs itself, so behind the mark the
digits may have another sign, which the minus sign then reverses.

There is no third way.  A number as it should be written is read as it stands or refused
as too large, and no other text is taken for a number.
-/

namespace RegionGuard.Trace

open Text (Base)

variable {text : List Char} {v w : Int64} {z : Int} {n : Nat}

/-- The mark of a base and digits, and the number that they denote. -/
inductive Magnitude : List Char → Nat → Prop
  | intro {base : Base} {mark digits : List Char} {n : Nat} (hmark : base.Mark mark)
      (h : base.Denotes digits n) : Magnitude (mark ++ digits) n

/-- A number as it should be written, and its value. -/
inductive Numeral : List Char → Int → Prop
  | plain {text : List Char} {n : Nat} (h : Magnitude text n) : Numeral text n
  | negative {text : List Char} {n : Nat} (h : Magnitude text n) : Numeral ('-' :: text) (-n)

/-- The mark of a base, and behind it digits with a sign of their own. -/
inductive OwnSigned : List Char → Int → Prop
  | intro {base : Base} {mark body : List Char} {z : Int} (hmark : base.Mark mark)
      (h : base.OwnSigned body z) : OwnSigned (mark ++ body) z

/-- A number that has a sign where there should be none, and what is read from it.  The
minus sign in front reverses a number of 64 bits, so the least one stays what it is. -/
inductive Oversigned : List Char → Int64 → Prop
  | plain {text : List Char} {w : Int64} (h : OwnSigned text w.toInt)
      (hminus : text.head? ≠ some '-') : Oversigned text w
  | negative {text : List Char} {w : Int64} (h : OwnSigned text w.toInt) :
      Oversigned ('-' :: text) (-w)

/-! ## Where signs stand -/

/-- A number without sign consists of letters and digits. -/
theorem Magnitude.isAlphanum (h : Magnitude text n) : ∀ c ∈ text, c.isAlphanum = true := by
  obtain ⟨hmark, hdigits⟩ := h
  exact List.forall_mem_append.mpr ⟨hmark.isAlphanum, hdigits.isAlphanum⟩

theorem Magnitude.head?_ne (h : Magnitude text n) : text.head? ≠ some '-' := by
  intro hhead
  have hminus := h.isAlphanum '-' (List.mem_of_head? hhead)
  cases hminus

/-- A number whose digits have a sign of their own has this sign in it. -/
theorem OwnSigned.exists_sign (h : OwnSigned text z) : ∃ c ∈ text, c.isAlphanum = false := by
  obtain ⟨hmark, hbody⟩ := h
  cases hbody with
  | plus hdigits => exact ⟨'+', by simp, rfl⟩
  | minus hdigits => exact ⟨'-', by simp, rfl⟩

/-- So it is not a number without sign. -/
theorem OwnSigned.not_magnitude (h : OwnSigned text z) : ¬ Magnitude text n := by
  intro hmagnitude
  obtain ⟨c, hc, hsign⟩ := h.exists_sign
  rw [hmagnitude.isAlphanum c hc] at hsign
  cases hsign

/-- A sign too many is outside of what should be written. -/
theorem Oversigned.not_numeral (h : Oversigned text v) : ¬ Numeral text z := by
  intro hnumeral
  cases h with
  | plain h hminus =>
      cases hnumeral with
      | plain hmagnitude => exact h.not_magnitude hmagnitude
      | negative hmagnitude => exact hminus rfl
  | negative h =>
      cases hnumeral with
      | plain hmagnitude => exact hmagnitude.head?_ne rfl
      | negative hmagnitude => exact h.not_magnitude hmagnitude

/-! ## Behind the minus sign -/

/-- What is read of a text whose minus sign has been taken off. -/
def readUnsigned (text : List Char) : Except Text.NumeralError Int64 :=
  Text.readInt64 (Text.splitBase text).1 (Text.splitBase text).2

/-- A number without sign is read if it lies below half of the 64-bit range. -/
theorem readUnsigned_of_magnitude (h : Magnitude text n) :
    readUnsigned text = if n < Text.int64Half then .ok (Int64.ofInt n) else .error .tooLarge := by
  obtain ⟨hmark, hdigits⟩ := h
  rw [readUnsigned, Text.splitBase_append hmark hdigits.ne_mark]
  exact Text.readInt64_of_denotes hdigits

/-- What is read behind the minus sign is a number without sign, or one that has a sign too
many. -/
theorem readUnsigned_eq_ok_iff :
    readUnsigned text = .ok w ↔ (∃ n : Nat, Magnitude text n ∧ w.toInt = n) ∨ OwnSigned text w.toInt := by
  constructor
  · intro h
    obtain ⟨mark, hmark, htext⟩ :=
      Text.exists_mark_of_splitBase (Prod.mk.eta (p := Text.splitBase text)).symm
    rw [htext]
    rcases Text.readInt64_eq_ok_iff.mp h with ⟨n, hdigits, hw⟩ | hsigned
    · exact .inl ⟨n, .intro hmark hdigits, hw⟩
    · exact .inr (.intro hmark hsigned)
  · intro h
    rcases h with ⟨n, ⟨hmark, hdigits⟩, hw⟩ | hsigned
    · rw [readUnsigned, Text.splitBase_append hmark hdigits.ne_mark]
      exact Text.readInt64_eq_ok_iff.mpr (.inl ⟨n, hdigits, hw⟩)
    · generalize hz : w.toInt = z at hsigned
      obtain ⟨hmark, hbody⟩ := hsigned
      rw [readUnsigned, Text.splitBase_append hmark hbody.ne_mark]
      exact Text.readInt64_eq_ok_iff.mpr (.inr (hz ▸ hbody))

/-- The minus sign reverses what is read behind it. -/
theorem readSigned_minus (text : List Char) :
    readSigned ('-' :: text) = (readUnsigned text).map (- ·) :=
  rfl

theorem readSigned_of_head?_ne (h : text.head? ≠ some '-') : readSigned text = readUnsigned text := by
  unfold readSigned
  split
  · exact absurd rfl h
  · rfl

/-! ## With the minus sign -/

/-- The least value is its own negative, every other value has the negative that it should
have. -/
theorem toInt_neg_of_ne (h : v ≠ Int64.minValue) : (-v).toInt = -v.toInt := by
  have hfrom : -2 ^ 63 ≤ v.toInt := v.le_toInt
  have hto : v.toInt < 2 ^ 63 := v.toInt_lt
  have hleast : v.toInt ≠ -2 ^ 63 := fun heq => h (Int64.toInt_inj.mp heq)
  rw [Int64.toInt_neg]
  exact Int.bmod_eq_of_le (by omega) (by omega)

theorem ne_minValue_of_lt (h : -2 ^ 63 < v.toInt) : v ≠ Int64.minValue := by
  intro heq
  rw [heq] at h
  exact absurd h (by decide)

/-- What is read of a text with a minus sign, the least value excepted. -/
theorem readSigned_minus_eq_ok_iff :
    readSigned ('-' :: text) = .ok v ↔
      (Numeral ('-' :: text) v.toInt ∧ v ≠ Int64.minValue) ∨ Oversigned ('-' :: text) v := by
  rw [readSigned_minus, Text.map_eq_ok_iff]
  constructor
  · intro ⟨w, hread, hv⟩
    subst hv
    rcases readUnsigned_eq_ok_iff.mp hread with ⟨n, hmagnitude, hw⟩ | hsigned
    · have hto : w.toInt < 2 ^ 63 := w.toInt_lt
      have hvalue : (-w).toInt = -n := by
        rw [toInt_neg_of_ne (ne_minValue_of_lt (by omega)), hw]
      refine .inl ⟨?_, ne_minValue_of_lt (by omega)⟩
      rw [hvalue]
      exact .negative hmagnitude
    · exact .inr (.negative hsigned)
  · intro h
    rcases h with ⟨hnumeral, hne⟩ | hover
    · refine ⟨-v, ?_, Int64.neg_neg⟩
      have hvalue := toInt_neg_of_ne hne
      generalize v.toInt = z at hnumeral hvalue
      cases hnumeral with
      | plain hmagnitude => exact absurd rfl hmagnitude.head?_ne
      | @negative _ n hmagnitude =>
          exact readUnsigned_eq_ok_iff.mpr (.inl ⟨n, hmagnitude, by omega⟩)
    · cases hover with
      | plain hsigned hminus => exact absurd rfl hminus
      | @negative _ w hsigned => exact ⟨w, readUnsigned_eq_ok_iff.mpr (.inr hsigned), rfl⟩

/-- What is read of a text without one. -/
theorem readSigned_plain_eq_ok_iff (hminus : text.head? ≠ some '-') :
    readSigned text = .ok v ↔
      (Numeral text v.toInt ∧ v ≠ Int64.minValue) ∨ Oversigned text v := by
  rw [readSigned_of_head?_ne hminus, readUnsigned_eq_ok_iff]
  constructor
  · intro h
    rcases h with ⟨n, hmagnitude, hv⟩ | hsigned
    · refine .inl ⟨?_, ne_minValue_of_lt (by omega)⟩
      rw [hv]
      exact .plain hmagnitude
    · exact .inr (.plain hsigned hminus)
  · intro h
    rcases h with ⟨hnumeral, hne⟩ | hover
    · generalize v.toInt = z at hnumeral
      cases hnumeral with
      | @plain _ n hmagnitude => exact .inl ⟨n, hmagnitude, rfl⟩
      | negative hmagnitude => exact absurd rfl hminus
    · cases hover with
      | plain hsigned hminus => exact .inr hsigned
      | negative hsigned => exact absurd rfl hminus

/-- Exactly these texts are read. -/
theorem readSigned_eq_ok_iff :
    readSigned text = .ok v ↔
      (Numeral text v.toInt ∧ v ≠ Int64.minValue) ∨ Oversigned text v := by
  by_cases hminus : text.head? = some '-'
  · obtain ⟨rest, rfl⟩ := List.head?_eq_some_iff.mp hminus
    exact readSigned_minus_eq_ok_iff
  · exact readSigned_plain_eq_ok_iff hminus

/-- A number as it should be written is read, unless its magnitude is too large. -/
theorem readSigned_of_numeral (h : Numeral text z) :
    readSigned text =
      if z.natAbs < Text.int64Half then .ok (Int64.ofInt z) else .error .tooLarge := by
  cases h with
  | @plain _ n hmagnitude =>
      rw [readSigned_of_head?_ne hmagnitude.head?_ne]
      exact readUnsigned_of_magnitude hmagnitude
  | @negative _ n hmagnitude =>
      rw [readSigned_minus, readUnsigned_of_magnitude hmagnitude, Int.natAbs_neg, Int.natAbs_natCast,
        Int64.ofInt_neg]
      split <;> rfl

/-! ## Offsets -/

/-- An offset is a signed number within its 32 bits. -/
theorem readOffset_eq_ok_iff {offset : Int32} :
    readOffset text = .ok offset ↔ ∃ v, readSigned text = .ok v ∧ v.toInt = offset.toInt := by
  have hmost : Int32.maxValue.toInt = 2147483647 := rfl
  have hleast : Int32.minValue.toInt = -2147483648 := rfl
  have hfrom : -2147483648 ≤ offset.toInt := offset.le_toInt
  have hto : offset.toInt < 2147483648 := offset.toInt_lt
  rw [readOffset, readValue]
  cases readSigned text with
  | error cause => simp [Except.mapError]
  | ok v =>
      simp only [Except.mapError, Except.ok.injEq, exists_eq_left']
      split
      · have hne : v.toInt ≠ offset.toInt := by omega
        simp [hne]
      · split
        · have hne : v.toInt ≠ offset.toInt := by omega
          simp [hne]
        · rw [Except.ok.injEq, ← Int32.toInt_inj, Int64.toInt_toInt32,
            Int.bmod_eq_of_le (by omega) (by omega)]

/-! ## All texts -/

/-- **Signed numbers.**  What is read is what should be written, save the least value, and
the numbers with a sign too many, which should not be written.  A number out of range is
refused as too large, and an offset is read where its number is read and has 32 bits.
Behind two minus signs the least value is read as itself, since the negation wraps as in a
release build; its spellings are the only texts at which a debug build panics instead. -/
theorem reads_signed (text : List Char) :
    (∀ v, readSigned text = .ok v ↔
      (Numeral text v.toInt ∧ v ≠ Int64.minValue) ∨ Oversigned text v) ∧
    (∀ z, Numeral text z →
      readSigned text = (if z.natAbs < 2 ^ 63 then .ok (Int64.ofInt z) else .error .tooLarge) ∧
      ∀ v, ¬ Oversigned text v) ∧
    ∀ offset, readOffset text = .ok offset ↔
      ∃ v, readSigned text = .ok v ∧ v.toInt = offset.toInt :=
  ⟨fun _ => readSigned_eq_ok_iff,
    fun _ h => ⟨readSigned_of_numeral h, fun _ hover => hover.not_numeral h⟩,
    fun _ => readOffset_eq_ok_iff⟩

/-- A negative number in hexadecimal. -/
theorem reads_signed_negative :
    Numeral "-0x10".toList (-16) ∧ readSigned "-0x10".toList = .ok (-16) ∧
      readOffset "-0x10".toList = .ok (-16) := by
  have hdigits : Base.hexadecimal.Denotes ['1', '0'] 16 := Base.denotes_toDigits .hexadecimal 16
  have hnumeral : Numeral "-0x10".toList (-16) := .negative (.intro .small hdigits)
  obtain ⟨-, hread, hoffset⟩ := reads_signed "-0x10".toList
  have hvalue : readSigned "-0x10".toList = .ok (-16) := (hread _ hnumeral).1
  exact ⟨hnumeral, hvalue, (hoffset _).mpr ⟨_, hvalue, rfl⟩⟩

/-- The least value is refused as too large although it is in range, and a number with two
minus signs is read although it should not be written. -/
theorem readSigned_least_refused :
    Numeral "-9223372036854775808".toList Int64.minValue.toInt ∧
      readSigned "-9223372036854775808".toList = .error .tooLarge ∧
      readSigned "--5".toList = .ok 5 ∧ ∀ z, ¬ Numeral "--5".toList z := by
  have hleast : Numeral "-9223372036854775808".toList Int64.minValue.toInt :=
    .negative (.intro .decimal (Base.denotes_toDigits .decimal 9223372036854775808))
  have hfive : Base.decimal.Denotes ['5'] 5 := Base.denotes_toDigits .decimal 5
  have htwice : Oversigned "--5".toList (-(-5)) :=
    .negative (.intro .decimal (.minus hfive))
  exact ⟨hleast, readSigned_of_numeral hleast, readSigned_eq_ok_iff.mpr (.inr htwice),
    fun z => htwice.not_numeral⟩

end RegionGuard.Trace
