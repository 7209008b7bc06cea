import RegionGuard.Text.Hex
import RegionGuard.Text.Numeral
import Mathlib.Data.List.Forall2
import Mathlib.Data.Nat.Digits.Defs

/-!
# What numbers are read

A text denotes a number in a base if it consists of digits of that base, as many as one
likes but at least one, and the number is the sum of their values, each with the weight of
its place.  Reading agrees with this for every text and every limit: the value read so far
grows with every digit, so no part of the digits passes a limit that the whole keeps, and
a number that is too large is never taken for another one.
-/

namespace RegionGuard.Text

variable {base : Base} {digits body mark : List Char} {values : List Nat} {c : Char}
  {limit acc n d : Nat} {overflow cause : NumeralError}

/-- In related lists each element of one has its counterpart in the other. -/
theorem exists_related_of_mem {α β : Type} {R : α → β → Prop} {front : List α} {back : List β}
    (h : List.Forall₂ R front back) {a : α} (ha : a ∈ front) : ∃ b ∈ back, R a b := by
  obtain ⟨i, hi, rfl⟩ := List.getElem_of_mem ha
  have hi' : i < back.length := h.length_eq ▸ hi
  exact ⟨back[i], List.getElem_mem hi', h.get hi hi'⟩

/-! ## Digits -/

/-- A character is the digit of value `d`; the case of letters does not matter. -/
def Base.Stands (base : Base) (c : Char) (d : Nat) : Prop :=
  d < base.radix ∧ (c = d.digitChar ∨ c = d.digitChar.toUpper)

/-- Digits, at least one and the most significant one first, and the number they denote. -/
def Base.Denotes (base : Base) (digits : List Char) (n : Nat) : Prop :=
  digits ≠ [] ∧
    ∃ values, List.Forall₂ base.Stands digits values ∧ Nat.ofDigits base.radix values.reverse = n

theorem Base.one_lt_radix (base : Base) : 1 < base.radix := by
  cases base <;> decide

/-- What holds of every digit in both cases holds of whatever stands for one. -/
theorem Base.Stands.of_forall {P : Char → Nat → Prop} (h : base.Stands c d)
    (hall : ∀ d < base.radix, P d.digitChar d ∧ P d.digitChar.toUpper d) : P c d := by
  obtain ⟨hd, hc | hc⟩ := h
  · rw [hc]
    exact (hall d hd).1
  · rw [hc]
    exact (hall d hd).2

/-- Whatever stands for a digit is read as its value, in either case of the letters. -/
theorem Base.digit?_of_stands (h : base.Stands c d) : base.digit? c = some d := by
  apply h.of_forall (P := fun c d => base.digit? c = some d)
  cases base <;> decide

/-- No digit comes behind the small letters. -/
theorem Base.le_of_digit? (h : base.digit? c = some d) : c ≤ 'f' := by
  unfold Base.digit? at h
  split at h
  · rename_i hrange
    exact Char.le_trans hrange.2 (by decide)
  · cases base with
    | decimal => cases h
    | hexadecimal =>
        simp only at h
        split at h
        · rename_i hrange
          exact hrange.2
        · split at h
          · rename_i hrange
            exact Char.le_trans hrange.2 (by decide)
          · cases h

/-- Nothing else is read: a character with a value is that digit in one of the two cases. -/
theorem Base.stands_of_digit? (h : base.digit? c = some d) : base.Stands c d := by
  have hall : ∀ k ≤ 'f'.toNat, ∀ d ∈ base.digit? (Char.ofNat k),
      d < base.radix ∧ (Char.ofNat k = d.digitChar ∨ Char.ofNat k = d.digitChar.toUpper) := by
    cases base <;> decide
  have hc := hall c.toNat (Char.le_def.mp (Base.le_of_digit? h)) d
  rw [Char.ofNat_toNat] at hc
  exact hc h

/-- The value of a digit is determined, since it is computed. -/
theorem Base.stands_rightUnique (base : Base) : Relator.RightUnique base.Stands := by
  intro c d e hd he
  exact Option.some.inj ((Base.digit?_of_stands hd).symm.trans (Base.digit?_of_stands he))

/-- Digits are letters and figures of ASCII, and none of them is the letter of a mark. -/
theorem Base.Stands.isAlphanum_and_ne (h : base.Stands c d) :
    c.isAlphanum = true ∧ c ≠ 'x' ∧ c ≠ 'X' := by
  apply h.of_forall (P := fun c _ => c.isAlphanum = true ∧ c ≠ 'x' ∧ c ≠ 'X')
  cases base <;> decide

/-- Digits denote one number only. -/
theorem Base.Denotes.unique {m : Nat} (hn : base.Denotes digits n) (hm : base.Denotes digits m) :
    n = m := by
  obtain ⟨-, values, hvalues, rfl⟩ := hn
  obtain ⟨-, others, hothers, rfl⟩ := hm
  rw [List.right_unique_forall₂' base.stands_rightUnique hvalues hothers]

theorem Base.Denotes.exists_stands (h : base.Denotes digits n) (hc : c ∈ digits) :
    ∃ d, base.Stands c d := by
  obtain ⟨-, values, hvalues, -⟩ := h
  obtain ⟨d, -, hd⟩ := exists_related_of_mem hvalues hc
  exact ⟨d, hd⟩

/-- So a number has letters and digits of ASCII only, and no sign, blank or underscore. -/
theorem Base.Denotes.isAlphanum (h : base.Denotes digits n) : ∀ c ∈ digits, c.isAlphanum = true := by
  intro c hc
  obtain ⟨d, hd⟩ := h.exists_stands hc
  exact hd.isAlphanum_and_ne.1

/-- The mark of a base cannot be mistaken for digits, as no digit is an `x`. -/
theorem Base.Denotes.ne_mark (h : base.Denotes digits n) : ∀ c ∈ digits, c ≠ 'x' ∧ c ≠ 'X' := by
  intro c hc
  obtain ⟨d, hd⟩ := h.exists_stands hc
  exact hd.isAlphanum_and_ne.2

/-- A number does not start with a sign or anything else that is no digit. -/
theorem Base.Denotes.ne_cons (h : base.Denotes digits n) (hc : c.isAlphanum = false)
    (rest : List Char) : digits ≠ c :: rest := by
  intro heq
  subst heq
  rw [h.isAlphanum c List.mem_cons_self] at hc
  cases hc

/-! ## Reading digits -/

/-- The value behind further digits. -/
def Base.follow (base : Base) (acc : Nat) (values : List Nat) : Nat :=
  values.foldl (fun acc d => acc * base.radix + d) acc

/-- Taking in digits from the left gives the sum of their weights. -/
theorem Base.ofDigits_reverse (base : Base) (values : List Nat) :
    Nat.ofDigits base.radix values.reverse = base.follow 0 values := by
  rw [Nat.ofDigits_eq_foldr, List.foldr_reverse, Base.follow]
  congr 1
  funext acc d
  rw [Nat.cast_id, Nat.add_comm, Nat.mul_comm]

/-- The value read so far never decreases. -/
theorem Base.le_follow (base : Base) (acc : Nat) (values : List Nat) :
    acc ≤ base.follow acc values := by
  induction values generalizing acc with
  | nil => exact Nat.le_refl acc
  | cons d values ih =>
      have hgrown : acc ≤ acc * base.radix + d :=
        Nat.le_add_right_of_le (Nat.le_mul_of_pos_right acc base.one_lt_radix.le)
      exact Nat.le_trans hgrown (ih _)

/-- Digits are read to the end if their value keeps the limit, and refused otherwise; it is
enough to compare the whole value, because no part of the digits has a greater one. -/
theorem readDigits_of_stands (h : List.Forall₂ base.Stands digits values) (hacc : acc ≤ limit) :
    readDigits base limit overflow acc digits =
      if base.follow acc values ≤ limit then .ok (base.follow acc values) else .error overflow := by
  induction h generalizing acc with
  | nil => exact (if_pos hacc).symm
  | @cons c d digits values hdigit hdigits ih =>
      simp only [readDigits, Base.digit?_of_stands hdigit]
      split
      · rename_i hwithin
        exact ih hwithin
      · rename_i hpassed
        -- the value only grows from here on
        have hfollow : ¬ base.follow acc (d :: values) ≤ limit := fun hle =>
          hpassed (Nat.le_trans (base.le_follow _ values) hle)
        exact (if_neg hfollow).symm

/-- Text that is read consists of digits. -/
theorem exists_stands_of_readDigits (h : readDigits base limit overflow acc digits = .ok n) :
    ∃ values, List.Forall₂ base.Stands digits values := by
  induction digits generalizing acc with
  | nil => exact ⟨[], .nil⟩
  | cons c digits ih =>
      rw [readDigits] at h
      split at h
      · cases h
      · rename_i d hdigit
        split at h
        · obtain ⟨values, hvalues⟩ := ih h
          exact ⟨d :: values, .cons (Base.stands_of_digit? hdigit) hvalues⟩
        · cases h

/-! ## Reading magnitudes -/

/-- A number is read as its value, or refused as too large. -/
theorem readMagnitude_of_denotes (h : base.Denotes digits n) :
    readMagnitude base limit overflow digits = if n ≤ limit then .ok n else .error overflow := by
  obtain ⟨hne, values, hvalues, rfl⟩ := h
  rw [Base.ofDigits_reverse, ← readDigits_of_stands hvalues (Nat.zero_le limit)]
  cases digits with
  | nil => exact absurd rfl hne
  | cons c digits => rfl

/-- A text is read as `n` exactly if it denotes `n` and `n` keeps the limit. -/
theorem readMagnitude_eq_ok_iff :
    readMagnitude base limit overflow digits = .ok n ↔ base.Denotes digits n ∧ n ≤ limit := by
  constructor
  · intro h
    have hdenotes : ∃ m, base.Denotes digits m := by
      unfold readMagnitude at h
      split at h
      · cases h
      · rename_i hne
        obtain ⟨values, hvalues⟩ := exists_stands_of_readDigits h
        exact ⟨_, hne, values, hvalues, rfl⟩
    obtain ⟨m, hm⟩ := hdenotes
    rw [readMagnitude_of_denotes hm] at h
    split at h
    · rename_i hle
      obtain rfl := Except.ok.inj h
      exact ⟨hm, hle⟩
    · cases h
  · intro ⟨hn, hle⟩
    rw [readMagnitude_of_denotes hn, if_pos hle]

theorem map_eq_ok_iff {ε α β : Type} {f : α → β} {read : Except ε α} {b : β} :
    read.map f = .ok b ↔ ∃ a, read = .ok a ∧ f a = b := by
  cases read <;> simp [Except.map]

/-- What is made of a magnitude stems from the number that the text denotes. -/
theorem map_readMagnitude_eq_ok_iff {α : Type} {f : Nat → α} {a : α} :
    (readMagnitude base limit overflow digits).map f = .ok a ↔
      ∃ n, base.Denotes digits n ∧ n ≤ limit ∧ f n = a := by
  simp only [map_eq_ok_iff, readMagnitude_eq_ok_iff, and_assoc]

/-! ## Underscores -/

/-- Digits with underscores anywhere among them, in front of them and behind them. -/
inductive Grouped : List Char → List Char → Prop
  | nil : Grouped [] []
  | digit {c : Char} {text digits : List Char} (h : Grouped text digits) :
      Grouped (c :: text) (c :: digits)
  | underscore {text digits : List Char} (h : Grouped text digits) : Grouped ('_' :: text) digits

theorem Grouped.refl (digits : List Char) : Grouped digits digits := by
  induction digits with
  | nil => exact .nil
  | cons c digits ih => exact .digit ih

/-- Grouping adds underscores and nothing else. -/
theorem Grouped.mem (h : Grouped body digits) : ∀ c ∈ body, c ∈ digits ∨ c = '_' := by
  induction h with
  | nil => simp
  | digit h ih => grind
  | underscore h ih => grind

/-- Without its underscores a grouped text is the digits again. -/
theorem Grouped.filter (h : Grouped body digits) (hdigits : '_' ∉ digits) :
    body.filter (· ≠ '_') = digits := by
  induction h with
  | nil => rfl
  | @digit c text digits h ih =>
      obtain ⟨hc, hrest⟩ := not_or.mp (mt List.mem_cons.mpr hdigits)
      rw [List.filter_cons_of_pos (by simpa using Ne.symm hc), ih hrest]
  | underscore h ih =>
      rw [List.filter_cons_of_neg (by simp)]
      exact ih hdigits

/-! ## Marks -/

/-- The mark of a base, which comes before the digits. -/
inductive Base.Mark : Base → List Char → Prop
  | decimal : Mark .decimal []
  | small : Mark .hexadecimal ['0', 'x']
  | capital : Mark .hexadecimal ['0', 'X']

/-- A mark, if there is one, consists of a digit and a letter. -/
theorem Base.Mark.isAlphanum (hmark : base.Mark mark) : ∀ c ∈ mark, c.isAlphanum = true := by
  cases hmark <;> exact List.all_eq_true.mp rfl

/-- A mark is taken off what follows it, and text without one is taken for a decimal number. -/
theorem splitBase_append (hmark : base.Mark mark) (hbody : ∀ c ∈ body, c ≠ 'x' ∧ c ≠ 'X') :
    splitBase (mark ++ body) = (base, body) := by
  cases hmark with
  | decimal =>
      rw [List.nil_append]
      unfold splitBase
      split
      · exact absurd rfl (hbody 'x' (by simp)).1
      · exact absurd rfl (hbody 'X' (by simp)).2
      · rfl
  | small => rfl
  | capital => rfl

/-- Nothing but a mark is ever taken off. -/
theorem exists_mark_of_splitBase {text : List Char} (h : splitBase text = (base, body)) :
    ∃ mark, base.Mark mark ∧ text = mark ++ body := by
  unfold splitBase at h
  split at h <;> obtain ⟨rfl, rfl⟩ := Prod.mk.inj h
  · exact ⟨_, .small, rfl⟩
  · exact ⟨_, .capital, rfl⟩
  · exact ⟨_, .decimal, rfl⟩

/-! ## Signs -/

/-- Digits behind a sign of their own, and the number that they denote with it. -/
inductive Base.OwnSigned (base : Base) : List Char → Int → Prop
  | plus {digits : List Char} {n : Nat} (h : base.Denotes digits n) : OwnSigned base ('+' :: digits) n
  | minus {digits : List Char} {n : Nat} (h : base.Denotes digits n) : OwnSigned base ('-' :: digits) (-n)

/-- A sign in front of digits adds no `x` to them. -/
theorem Base.OwnSigned.ne_mark {z : Int} (h : base.OwnSigned body z) :
    ∀ c ∈ body, c ≠ 'x' ∧ c ≠ 'X' := by
  cases h with
  | plus h => exact List.forall_mem_cons.mpr ⟨by decide, h.ne_mark⟩
  | minus h => exact List.forall_mem_cons.mpr ⟨by decide, h.ne_mark⟩

/-- Numbers of 32 bits are read as what they denote, greater ones are refused as too large. -/
theorem readUInt32_of_denotes (h : base.Denotes digits n) :
    readUInt32 base digits =
      if n < UInt32.size then .ok (UInt32.ofNat n) else .error .tooLarge := by
  unfold readUInt32
  split
  · exact absurd rfl h.1
  · exact absurd rfl (h.ne_cons rfl _)
  · have hpos : 0 < UInt32.size := by decide
    simp only [readMagnitude_of_denotes h, Nat.le_sub_one_iff_lt hpos]
    split <;> rfl

theorem int64Half_pos : 0 < int64Half := by
  decide

/-- Without a sign, a number is read if it lies below half of the 64-bit range. -/
theorem readInt64_of_denotes (h : base.Denotes digits n) :
    readInt64 base digits =
      if n < int64Half then .ok (Int64.ofInt n) else .error .tooLarge := by
  unfold readInt64
  split
  · exact absurd rfl h.1
  · exact absurd rfl (h.ne_cons rfl _)
  · exact absurd rfl (h.ne_cons rfl _)
  · simp only [readMagnitude_of_denotes h, Nat.le_sub_one_iff_lt int64Half_pos]
    split <;> rfl

/-- Numbers below half of the 64-bit range keep their value. -/
theorem toInt_ofInt_of_lt (h : n < int64Half) : (Int64.ofInt n).toInt = n := by
  have hlt : n < 9223372036854775808 := h
  exact Int64.toInt_ofInt_of_le (by omega) (by omega)

/-- So do their negatives, down to the least value, which has no positive counterpart. -/
theorem toInt_ofInt_neg_of_le (h : n ≤ int64Half) : (Int64.ofInt (-n)).toInt = -n := by
  have hle : n ≤ 9223372036854775808 := h
  exact Int64.toInt_ofInt_of_le (by omega) (by omega)

/-- What a number of 64 bits may look like: digits, with a sign of their own or without. -/
theorem readInt64_eq_ok_iff {w : Int64} :
    readInt64 base body = .ok w ↔
      (∃ n : Nat, base.Denotes body n ∧ w.toInt = n) ∨ base.OwnSigned body w.toInt := by
  constructor
  · intro h
    unfold readInt64 at h
    split at h
    · cases h
    · obtain ⟨n, hn, hle, rfl⟩ := map_readMagnitude_eq_ok_iff.mp h
      rw [toInt_ofInt_of_lt ((Nat.le_sub_one_iff_lt int64Half_pos).mp hle)]
      exact .inr (.plus hn)
    · obtain ⟨n, hn, hle, rfl⟩ := map_readMagnitude_eq_ok_iff.mp h
      rw [toInt_ofInt_neg_of_le hle]
      exact .inr (.minus hn)
    · obtain ⟨n, hn, hle, rfl⟩ := map_readMagnitude_eq_ok_iff.mp h
      exact .inl ⟨n, hn, toInt_ofInt_of_lt ((Nat.le_sub_one_iff_lt int64Half_pos).mp hle)⟩
  · -- the value of a word of 64 bits is in range, so no limit is passed
    have hfrom : -9223372036854775808 ≤ w.toInt := w.le_toInt
    have hto : w.toInt < 9223372036854775808 := w.toInt_lt
    intro h
    rcases h with ⟨n, hn, hw⟩ | hsigned
    · have hlt : n < int64Half := by
        show n < 9223372036854775808
        omega
      rw [readInt64_of_denotes hn, if_pos hlt, ← hw, Int64.ofInt_toInt]
    · generalize hw : w.toInt = z at hsigned hfrom hto
      have hvalue : Int64.ofInt z = w := by rw [← hw, Int64.ofInt_toInt]
      cases hsigned with
      | @plus digits n hn =>
          have hle : n ≤ int64Half - 1 := by
            show n ≤ 9223372036854775807
            omega
          exact map_readMagnitude_eq_ok_iff.mpr ⟨n, hn, hle, hvalue⟩
      | @minus digits n hn =>
          have hle : n ≤ int64Half := by
            show n ≤ 9223372036854775808
            omega
          exact map_readMagnitude_eq_ok_iff.mpr ⟨n, hn, hle, hvalue⟩

/-! ## The digits of a number -/

theorem Base.stands_digitChar (h : d < base.radix) : base.Stands d.digitChar d :=
  ⟨h, .inl rfl⟩

/-- A number is denoted by its own digits. -/
theorem Base.denotes_toDigits (base : Base) (n : Nat) :
    base.Denotes (Nat.toDigits base.radix n) n := by
  refine ⟨Nat.toDigits_ne_nil, ?_⟩
  induction n using Nat.strong_induction_on with
  | _ n ih =>
      by_cases hlt : n < base.radix
      · rw [Nat.toDigits_of_lt_base hlt]
        exact ⟨[n], .cons (Base.stands_digitChar hlt) .nil, Nat.ofDigits_singleton⟩
      · have hle : base.radix ≤ n := Nat.le_of_not_lt hlt
        have hpos : 0 < n := Nat.lt_of_lt_of_le (Nat.lt_trans Nat.zero_lt_one base.one_lt_radix) hle
        obtain ⟨values, hvalues, hn⟩ := ih (n / base.radix) (Nat.div_lt_self hpos base.one_lt_radix)
        have hlast : n % base.radix < base.radix :=
          Nat.mod_lt n (Nat.lt_trans Nat.zero_lt_one base.one_lt_radix)
        rw [Nat.toDigits_of_base_le base.one_lt_radix hle]
        refine ⟨values ++ [n % base.radix],
          List.rel_append hvalues (.cons (Base.stands_digitChar hlast) .nil), ?_⟩
        rw [List.reverse_append, List.reverse_singleton, List.singleton_append, Nat.ofDigits_cons,
          hn, Nat.mod_add_div]

/-- Zeros in front add nothing. -/
theorem Base.Denotes.leftpad (h : base.Denotes digits n) (width : Nat) :
    base.Denotes (digits.leftpad width '0') n := by
  obtain ⟨hne, values, hvalues, rfl⟩ := h
  have hzero : base.Stands '0' 0 := Base.stands_digitChar (Nat.lt_trans Nat.zero_lt_one base.one_lt_radix)
  have hzeros : ∀ k, List.Forall₂ base.Stands (List.replicate k '0') (List.replicate k 0) := by
    intro k
    induction k with
    | zero => exact .nil
    | succ k ih => exact .cons hzero ih
  refine ⟨List.append_ne_nil_of_right_ne_nil _ hne, _,
    List.rel_append (hzeros (width - digits.length)) hvalues, ?_⟩
  rw [List.reverse_append, List.reverse_replicate, Nat.ofDigits_append_replicate_zero]

/-- A decimal number is written in digits of ASCII. -/
theorem isDigit_of_mem_toDigits (hc : c ∈ Nat.toDigits 10 n) : c.isDigit = true :=
  Nat.isDigit_of_mem_toDigits (by decide) (by decide) hc

/-! ## Eight hexadecimal digits -/

/-- A word is written in eight places, filled up with zeros. -/
theorem toList_hexWord (w : UInt32) : (hexWord w).toList = (hexDigits w.toNat).leftpad 8 '0' :=
  String.toList_ofList

/-- No number of 32 bits needs more than eight digits. -/
theorem length_hexWord (w : UInt32) : (hexWord w).toList.length = 8 := by
  have hdigits : (hexDigits w.toNat).length ≤ 8 :=
    (Nat.length_toDigits_le_iff (by decide) (by decide)).mpr w.toNat_lt
  rw [toList_hexWord, List.length_leftpad, max_eq_left hdigits]

/-- What is written for a word denotes it, as leading zeros add nothing. -/
theorem denotes_hexWord (w : UInt32) : Base.hexadecimal.Denotes (hexWord w).toList w.toNat := by
  rw [toList_hexWord]
  exact (Base.denotes_toDigits .hexadecimal w.toNat).leftpad 8

/-- Hence no two words are written alike. -/
theorem hexWord_injective {v w : UInt32} (h : (hexWord v).toList = (hexWord w).toList) : v = w := by
  have hv := denotes_hexWord v
  rw [h] at hv
  exact UInt32.toNat_inj.mp (hv.unique (denotes_hexWord w))

end RegionGuard.Text
