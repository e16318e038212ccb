import PetriQuery.Numeral.Integer
import PetriQuery.Proofs.Success
import PetriQuery.Proofs.Text.Trimming

/-!
# Decimal numerals

Which characters write an integer in decimal, and which integer they write. The predicate
`IsNumeral` and the value `numeralValue` know no range: a numeral may have any number of digits.

Main facts: a signed integer of 32 bits is read from exactly the numerals whose value it is
(`readInt32_eq_ok_iff`), and the decimal text of an integer is a numeral that writes it
(`isNumeral_toString`). There is no blank in a numeral, so it stands in a text as it is
(`trimmed_of_isNumeral`), and a text with a numeral between blanks writes an integer
(`WritesInteger`).
-/

set_option autoImplicit false

namespace PetriQuery.Numeral

/-- One or more decimal digits. -/
def IsDigits (cs : List Char) : Prop := cs ≠ [] ∧ ∀ c ∈ cs, c.isDigit = true

instance (cs : List Char) : Decidable (IsDigits cs) := inferInstanceAs (Decidable (_ ∧ _))

/-- One or more decimal digits behind an optional sign. -/
def IsNumeral : List Char → Prop
  | '-' :: digits => IsDigits digits
  | '+' :: digits => IsDigits digits
  | digits => IsDigits digits

/-- The integer that a decimal numeral writes. -/
def numeralValue : List Char → Int
  | '-' :: digits => -(Nat.ofDigitChars 10 digits 0 : Int)
  | '+' :: digits => Nat.ofDigitChars 10 digits 0
  | digits => Nat.ofDigitChars 10 digits 0

/-- A decimal numeral of an integer of 32 bits. -/
def IsInt32 (cs : List Char) : Prop :=
  IsNumeral cs ∧ -0x80000000 ≤ numeralValue cs ∧ numeralValue cs < 0x80000000

/-! ## Rows of digits -/

/-- The decimal digits are a range of characters. -/
theorem isDigit_iff (c : Char) : c.isDigit = true ↔ '0'.toNat ≤ c.toNat ∧ c.toNat ≤ '9'.toNat := by
  simp only [Char.isDigit, Bool.and_eq_true, decide_eq_true_eq, ge_iff_le, UInt32.le_iff_toNat_le]
  exact Iff.rfl

/-- In base ten, no letter is a digit. -/
theorem digit?_ten (c : Char) :
    digit? 10 c = if c.isDigit then some (c.toNat - '0'.toNat) else none := by
  have zero : '0'.toNat = 48 := rfl
  have nine : '9'.toNat = 57 := rfl
  have order : ∀ a b : Char, a ≤ b ↔ a.toNat ≤ b.toNat := fun _ _ => Iff.rfl
  simp only [digit?, order, isDigit_iff]
  by_cases digit : '0'.toNat ≤ c.toNat ∧ c.toNat ≤ '9'.toNat
  · rw [if_pos digit, if_pos (by omega), if_pos digit]
  · -- a letter is worth ten or more, and any other character as much as the base
    rw [if_neg digit, if_neg digit, if_neg]
    split
    · omega
    · split
      · omega
      · omega

/-- Further digits make a number no smaller. -/
theorem le_ofDigitChars (cs : List Char) (start : Nat) : start ≤ Nat.ofDigitChars 10 cs start := by
  induction cs generalizing start with
  | nil => simp
  | cons c rest ih =>
    rw [Nat.ofDigitChars_cons]
    exact Nat.le_trans (by omega) (ih _)

/-- Digits are read to their value iff it stays within the limit. No value on the way is larger. -/
theorem readDigits_eq_ok_iff {limit start n : Nat} {overflow : IntegerFault} {cs : List Char}
    (within : start ≤ limit) :
    readDigits 10 limit overflow start cs = .ok n
      ↔ (∀ c ∈ cs, c.isDigit = true) ∧ Nat.ofDigitChars 10 cs start = n ∧ n ≤ limit := by
  induction cs generalizing start with
  | nil =>
    simp only [readDigits, Except.ok.injEq, Nat.ofDigitChars_nil]
    constructor
    · rintro rfl
      exact ⟨by simp, rfl, within⟩
    · rintro ⟨-, h, -⟩
      exact h
  | cons c rest ih =>
    rw [readDigits, digit?_ten, Nat.ofDigitChars_cons, Nat.mul_comm 10 start]
    by_cases digit : c.isDigit = true
    · simp only [digit, if_true, List.forall_mem_cons, true_and]
      by_cases fits : start * 10 + (c.toNat - '0'.toNat) ≤ limit
      · rw [if_pos fits]
        exact ih fits
      · rw [if_neg fits]
        constructor
        · intro h
          cases h
        · rintro ⟨-, value, le⟩
          exact absurd (Nat.le_trans (le_ofDigitChars rest _) (value ▸ le)) fits
    · simp [digit]

/-! ## Integers of 32 bits -/

/-- Digits without a minus are read to the integer that they write. -/
theorem readDigits_ofNat_eq_ok_iff {cs : List Char} {v : Int32} :
    (readDigits 10 0x7fffffff .tooLarge 0 cs).map (fun n : Nat => Int32.ofNat n) = .ok v
      ↔ (∀ c ∈ cs, c.isDigit = true) ∧ v.toInt = Nat.ofDigitChars 10 cs 0 := by
  rw [map_eq_ok_iff]
  constructor
  · rintro ⟨n, h, rfl⟩
    obtain ⟨digits, rfl, le⟩ := (readDigits_eq_ok_iff (Nat.zero_le _)).1 h
    exact ⟨digits, Int32.toInt_ofNat_of_lt (Nat.lt_succ_of_le le)⟩
  · rintro ⟨digits, value⟩
    have range := v.toInt_lt
    refine ⟨_, (readDigits_eq_ok_iff (Nat.zero_le _)).2 ⟨digits, rfl, by omega⟩, ?_⟩
    rw [← Int32.toInt_inj, value, Int32.toInt_ofNat_of_lt (by omega)]

/-- Digits behind a minus are read to the integer that they write. -/
theorem readDigits_neg_eq_ok_iff {cs : List Char} {v : Int32} :
    (readDigits 10 0x80000000 .tooSmall 0 cs).map (fun n : Nat => Int32.ofInt (-n)) = .ok v
      ↔ (∀ c ∈ cs, c.isDigit = true) ∧ v.toInt = -(Nat.ofDigitChars 10 cs 0 : Int) := by
  rw [map_eq_ok_iff]
  constructor
  · rintro ⟨n, h, rfl⟩
    obtain ⟨digits, rfl, le⟩ := (readDigits_eq_ok_iff (Nat.zero_le _)).1 h
    exact ⟨digits, Int32.toInt_ofInt_of_le (by omega) (by omega)⟩
  · rintro ⟨digits, value⟩
    have range := v.le_toInt
    refine ⟨_, (readDigits_eq_ok_iff (Nat.zero_le _)).2 ⟨digits, rfl, by omega⟩, ?_⟩
    rw [← Int32.toInt_inj, value, Int32.toInt_ofInt_of_le (by omega) (by omega)]

/-- What stands behind a minus is read as digits, and the number is negated. -/
theorem readInt32_minus {digits : List Char} (some : digits ≠ []) :
    readInt32 ('-' :: digits)
      = (readDigits 10 0x80000000 .tooSmall 0 digits).map fun n : Nat => Int32.ofInt (-n) := by
  cases digits with
  | nil => exact absurd rfl some
  | cons c rest =>
    rw [readInt32]
    · cases readDigits 10 0x80000000 .tooSmall 0 (c :: rest) <;> rfl
    · simp

/-- What stands behind a plus is read as digits. -/
theorem readInt32_plus {digits : List Char} (some : digits ≠ []) :
    readInt32 ('+' :: digits)
      = (readDigits 10 0x7fffffff .tooLarge 0 digits).map fun n : Nat => Int32.ofNat n := by
  cases digits with
  | nil => exact absurd rfl some
  | cons c rest => rw [readInt32]; simp

/-- Without a sign, everything is read as digits. -/
theorem readInt32_unsigned {c : Char} {rest : List Char} (minus : c ≠ '-') (plus : c ≠ '+') :
    readInt32 (c :: rest)
      = (readDigits 10 0x7fffffff .tooLarge 0 (c :: rest)).map fun n : Nat => Int32.ofNat n := by
  rw [readInt32] <;> simp [minus, plus]

/-- A numeral without a sign is a row of digits. -/
theorem isNumeral_unsigned {c : Char} (minus : c ≠ '-') (plus : c ≠ '+') (rest : List Char) :
    IsNumeral (c :: rest) = IsDigits (c :: rest)
      ∧ numeralValue (c :: rest) = Nat.ofDigitChars 10 (c :: rest) 0 := by
  constructor
  · rw [IsNumeral] <;> simp [minus, plus]
  · rw [numeralValue] <;> simp [minus, plus]

/-- **The signed integers of 32 bits are read from their decimal numerals and from nothing else.**
-/
theorem readInt32_eq_ok_iff {cs : List Char} {v : Int32} :
    readInt32 cs = .ok v ↔ IsNumeral cs ∧ v.toInt = numeralValue cs := by
  cases cs with
  | nil => simp [readInt32, IsNumeral, IsDigits]
  | cons c rest =>
    by_cases minus : c = '-'
    · subst minus
      by_cases alone : rest = []
      · simp [alone, readInt32, IsNumeral, IsDigits]
      · rw [readInt32_minus alone, readDigits_neg_eq_ok_iff, IsNumeral, numeralValue, IsDigits,
          and_iff_right alone]
    · by_cases plus : c = '+'
      · subst plus
        by_cases alone : rest = []
        · simp [alone, readInt32, IsNumeral, IsDigits]
        · rw [readInt32_plus alone, readDigits_ofNat_eq_ok_iff, IsNumeral, numeralValue, IsDigits,
            and_iff_right alone]
      · obtain ⟨numeral, value⟩ := isNumeral_unsigned minus plus rest
        rw [readInt32_unsigned minus plus, readDigits_ofNat_eq_ok_iff, numeral, value, IsDigits,
          and_iff_right (List.cons_ne_nil c rest)]

/-- A signed integer of 32 bits is read iff one is written. -/
theorem exists_readInt32_iff {cs : List Char} : (∃ v, readInt32 cs = .ok v) ↔ IsInt32 cs := by
  simp only [readInt32_eq_ok_iff]
  constructor
  · rintro ⟨v, numeral, value⟩
    have above := v.le_toInt
    have below := v.toInt_lt
    exact ⟨numeral, by omega, by omega⟩
  · rintro ⟨numeral, above, below⟩
    exact ⟨Int32.ofInt (numeralValue cs), numeral,
      Int32.toInt_ofInt_of_le (by omega) (by omega)⟩

/-! ## Natural numbers -/

/-- What stands behind a plus is read as digits. -/
theorem readNat_plus {limit : Nat} {digits : List Char} (some : digits ≠ []) :
    readNat 10 limit ('+' :: digits) = readDigits 10 limit .tooLarge 0 digits := by
  cases digits with
  | nil => exact absurd rfl some
  | cons c rest => rw [readNat]; simp

/-- Without a plus, everything is read as digits. -/
theorem readNat_unsigned {limit : Nat} {c : Char} {rest : List Char} (plus : c ≠ '+') :
    readNat 10 limit (c :: rest) = readDigits 10 limit .tooLarge 0 (c :: rest) := by
  rw [readNat] <;> simp [plus]

/-- The natural numbers up to a limit are read from their digits, with a plus or without, and from
nothing else. -/
theorem readNat_eq_ok_iff {limit n : Nat} {cs : List Char} :
    readNat 10 limit cs = .ok n
      ↔ ∃ digits, (cs = digits ∨ cs = '+' :: digits) ∧ IsDigits digits
        ∧ Nat.ofDigitChars 10 digits 0 = n ∧ n ≤ limit := by
  have plusIsNone {rest : List Char} : ¬ IsDigits ('+' :: rest) := by simp [IsDigits]
  cases cs with
  | nil => simp [readNat, IsDigits]
  | cons c rest =>
    by_cases plus : c = '+'
    · subst plus
      by_cases alone : rest = []
      · simp [alone, readNat, IsDigits]
      · simp only [readNat_plus alone, readDigits_eq_ok_iff (Nat.zero_le limit), IsDigits,
          List.cons.injEq, true_and]
        constructor
        · rintro ⟨digits, value, le⟩
          exact ⟨rest, .inr rfl, ⟨alone, digits⟩, value, le⟩
        · rintro ⟨digits, rfl | rfl, isDigits, value, le⟩
          · exact absurd isDigits plusIsNone
          · exact ⟨isDigits.2, value, le⟩
    · simp only [readNat_unsigned plus, readDigits_eq_ok_iff (Nat.zero_le limit)]
      constructor
      · rintro ⟨digits, value, le⟩
        exact ⟨c :: rest, .inl rfl, ⟨List.cons_ne_nil c rest, digits⟩, value, le⟩
      · rintro ⟨digits, rfl | same, isDigits, value, le⟩
        · exact ⟨isDigits.2, value, le⟩
        · exact absurd (List.cons.inj same).1 plus

/-! ## Blanks -/

/-- No digit is blank. -/
theorem not_isBlank_of_isDigit {c : Char} (digit : c.isDigit = true) : Text.isBlank c = false := by
  obtain ⟨zero, nine⟩ := (isDigit_iff c).1 digit
  have zero : 48 ≤ c.toNat := zero
  have nine : c.toNat ≤ 57 := nine
  simp only [Text.isBlank, Text.blankRanges, List.any_cons, List.any_nil, Bool.or_false,
    Bool.or_eq_false_iff, Bool.and_eq_false_iff, decide_eq_false_iff_not]
  omega

/-- A numeral is not empty. -/
theorem IsNumeral.ne_nil {cs : List Char} (h : IsNumeral cs) : cs ≠ [] := by
  rintro rfl
  exact h.1 rfl

/-- The characters of a numeral are digits and signs. -/
theorem isDigit_or_sign_of_isNumeral {cs : List Char} (h : IsNumeral cs) {c : Char}
    (member : c ∈ cs) : c.isDigit = true ∨ c = '-' ∨ c = '+' := by
  unfold IsNumeral at h
  split at h
  · rcases List.mem_cons.1 member with rfl | member
    · exact Or.inr (Or.inl rfl)
    · exact Or.inl (h.2 c member)
  · rcases List.mem_cons.1 member with rfl | member
    · exact Or.inr (Or.inr rfl)
    · exact Or.inl (h.2 c member)
  · exact Or.inl (h.2 c member)

/-- No character of a numeral is blank. -/
theorem not_isBlank_of_isNumeral {cs : List Char} (h : IsNumeral cs) {c : Char} (member : c ∈ cs) :
    Text.isBlank c = false := by
  rcases isDigit_or_sign_of_isNumeral h member with digit | rfl | rfl
  · exact not_isBlank_of_isDigit digit
  · decide
  · decide

/-- Nothing of a numeral is trimmed. -/
theorem trimmed_of_isNumeral {cs : List Char} (h : IsNumeral cs) : Text.trimmed cs = cs :=
  Text.trimmed_eq_self fun _ member => not_isBlank_of_isNumeral h member

/-! ## Text of an integer -/

/-- The decimal text of a natural number is a row of digits. -/
theorem isDigits_toDigits (n : Nat) : IsDigits (Nat.toDigits 10 n) :=
  ⟨Nat.toDigits_ne_nil, fun _ member =>
    Nat.isDigit_of_mem_toDigits (by decide) (Nat.le_refl 10) member⟩

/-- A row of digits is a numeral without a sign. -/
theorem isNumeral_of_isDigits {cs : List Char} (h : IsDigits cs) :
    IsNumeral cs ∧ numeralValue cs = Nat.ofDigitChars 10 cs 0 := by
  obtain ⟨notEmpty, digits⟩ := h
  cases cs with
  | nil => exact absurd rfl notEmpty
  | cons c rest =>
    have digit := digits c List.mem_cons_self
    have minus : c ≠ '-' := by
      rintro rfl
      exact absurd digit (by decide)
    have plus : c ≠ '+' := by
      rintro rfl
      exact absurd digit (by decide)
    obtain ⟨numeral, value⟩ := isNumeral_unsigned minus plus rest
    exact ⟨numeral ▸ ⟨notEmpty, digits⟩, value⟩

/-- The decimal text of an integer is a numeral that writes it. -/
theorem isNumeral_toString (n : Int) :
    IsNumeral (toString n).toList ∧ numeralValue (toString n).toList = n := by
  rw [Int.toString_eq_repr, Int.repr_eq_if]
  split
  · next sign =>
    obtain ⟨numeral, value⟩ := isNumeral_of_isDigits (isDigits_toDigits n.toNat)
    rw [Nat.toList_repr]
    refine ⟨numeral, ?_⟩
    rw [value, Nat.ofDigitChars_toDigits (by decide) (Nat.le_refl 10)]
    omega
  · next sign =>
    have text : ("-" ++ (-n).toNat.repr).toList = '-' :: Nat.toDigits 10 (-n).toNat := by
      rw [String.toList_append, Nat.toList_repr]
      rfl
    rw [text]
    refine ⟨isDigits_toDigits _, ?_⟩
    rw [numeralValue, Nat.ofDigitChars_toDigits (by decide) (Nat.le_refl 10)]
    omega

/-- The decimal text of an integer is written with digits and a minus sign. -/
theorem isDigit_or_minus_of_mem_toString {n : Int} {c : Char} (member : c ∈ (toString n).toList) :
    c.isDigit = true ∨ c = '-' := by
  rw [Int.toString_eq_repr, Int.repr_eq_if] at member
  split at member
  · rw [Nat.toList_repr] at member
    exact Or.inl ((isDigits_toDigits _).2 c member)
  · rw [String.toList_append, Nat.toList_repr] at member
    rcases List.mem_cons.1 member with rfl | member
    · exact Or.inr rfl
    · exact Or.inl ((isDigits_toDigits _).2 c member)

/-! ## Texts with a numeral -/

/-- The text writes the integer in decimal, with blanks around the numeral. -/
def WritesInteger (s : String) (n : Int) : Prop :=
  ∃ before numeral after : String, s = before ++ numeral ++ after
    ∧ Text.isAllBlank before = true ∧ Text.isAllBlank after = true
    ∧ IsNumeral numeral.toList ∧ numeralValue numeral.toList = n

/-- A text writes an integer iff what is left without the blanks at its ends is a numeral of it. -/
theorem writesInteger_iff {s : String} {n : Int} :
    WritesInteger s n
      ↔ IsNumeral (Text.trimmed s.toList) ∧ numeralValue (Text.trimmed s.toList) = n := by
  have characters (t : String) : (Text.trim t).toList = Text.trimmed t.toList :=
    String.toList_ofList
  constructor
  · rintro ⟨before, numeral, after, rfl, blank, blank', isNumeral, value⟩
    -- The numeral has no blank at its ends, so it is all that is left.
    rw [← characters, Text.trim_padded blank blank', characters, trimmed_of_isNumeral isNumeral]
    exact ⟨isNumeral, value⟩
  · rintro ⟨isNumeral, value⟩
    obtain ⟨before, after, blank, blank', same⟩ := Text.exists_padding s
    rw [← characters] at isNumeral value
    exact ⟨before, Text.trim s, after, same, blank, blank', isNumeral, value⟩

/-- The decimal text of an integer writes it. -/
theorem writesInteger_toString (n : Int) : WritesInteger (toString n) n := by
  obtain ⟨numeral, value⟩ := isNumeral_toString n
  rw [writesInteger_iff, trimmed_of_isNumeral numeral]
  exact ⟨numeral, value⟩

/-- So it does with blanks around it. -/
theorem writesInteger_padded {before after : String} (blank : Text.isAllBlank before = true)
    (blank' : Text.isAllBlank after = true) (n : Int) :
    WritesInteger (before ++ toString n ++ after) n :=
  ⟨before, toString n, after, rfl, blank, blank', isNumeral_toString n⟩

end PetriQuery.Numeral
