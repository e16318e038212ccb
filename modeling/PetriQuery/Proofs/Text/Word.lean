import PetriQuery.Proofs.Numeral.Fraction

/-!
# Words

Words of letters, digits and the characters `-`, `_`, `.` and `:`, as they name elements, attributes
and places. Every character beyond ASCII counts as a letter here, so the letters and digits of every
script may stand in a word.

A text that begins with a word determines it, if the word is not continued behind
(`word_append_inj`).
-/

set_option autoImplicit false

namespace PetriQuery.Text

/-- Whether the character is an ASCII letter or stands beyond ASCII. -/
def isLetter (c : Char) : Bool := c.isAlpha || decide (0x80 ≤ c.toNat)

/-- Whether the character may stand in a word. -/
def isWordChar (c : Char) : Bool :=
  isLetter c || c.isDigit || c == '-' || c == '_' || c == '.' || c == ':'

/-- The characters are a word that begins with a character of the given kind. -/
def IsWord (first : Char → Bool) : List Char → Prop
  | [] => False
  | c :: rest => first c = true ∧ ∀ d ∈ rest, isWordChar d = true

instance (first : Char → Bool) : ∀ cs : List Char, Decidable (IsWord first cs)
  | [] => inferInstanceAs (Decidable False)
  | c :: rest =>
    decidable_of_iff (first c = true ∧ rest.all isWordChar = true)
      (and_congr_right fun _ => List.all_eq_true)

/-- No word goes on with these characters. -/
def EndsWord (rest : List Char) : Prop := ∀ c ∈ rest.head?, isWordChar c = false

/-- No word goes on with a character that may not stand in words. -/
theorem endsWord_cons {c : Char} (other : isWordChar c = false) (rest : List Char) :
    EndsWord (c :: rest) := by
  intro d head
  obtain rfl : c = d := Option.some.inj head
  exact other

/-- Letters may stand in words. -/
theorem isWordChar_of_isLetter {c : Char} (letter : isLetter c = true) : isWordChar c = true := by
  simp only [isWordChar, letter, Bool.true_or]

/-- Digits may stand in words. -/
theorem isWordChar_of_isDigit {c : Char} (digit : c.isDigit = true) : isWordChar c = true := by
  simp only [isWordChar, digit, Bool.or_true, Bool.true_or]

/-- No digit is a letter. -/
theorem not_isLetter_of_isDigit {c : Char} (digit : c.isDigit = true) : isLetter c = false := by
  obtain ⟨zero, nine⟩ := (Numeral.isDigit_iff c).1 digit
  have zero : 48 ≤ c.toNat := zero
  have nine : c.toNat ≤ 57 := nine
  delta isLetter Char.isAlpha Char.isUpper Char.isLower
  simp only [UInt32.le_iff_toNat_le, Bool.or_eq_false_iff, Bool.and_eq_false_iff,
    decide_eq_false_iff_not]
  change (¬ (65 ≤ c.toNat ∧ c.toNat ≤ 90) ∧ (¬ 97 ≤ c.toNat ∨ ¬ c.toNat ≤ 122))
    ∧ ¬ 128 ≤ c.toNat
  omega

/-- A word is not empty. -/
theorem IsWord.ne_nil {first : Char → Bool} {cs : List Char} (word : IsWord first cs) :
    cs ≠ [] := by
  rintro rfl
  exact word

/-- All characters of a word may stand in words, if the first one may. -/
theorem IsWord.isWordChar {first : Char → Bool} {cs : List Char} (word : IsWord first cs)
    (may : ∀ c, first c = true → isWordChar c = true) : ∀ c ∈ cs, isWordChar c = true := by
  cases cs with
  | nil => exact word.elim
  | cons c rest => exact List.forall_mem_cons.2 ⟨may c word.1, word.2⟩

/-- A word that is not continued is determined by the text that it begins. -/
theorem word_append_inj {w v r s : List Char} (word : ∀ c ∈ w, isWordChar c = true)
    (word' : ∀ c ∈ v, isWordChar c = true) (stop : EndsWord r) (stop' : EndsWord s)
    (same : w ++ r = v ++ s) : w = v ∧ r = s := by
  have split := Numeral.span_append word stop
  rw [same, Numeral.span_append word' stop'] at split
  obtain ⟨front, rest⟩ := Prod.mk.inj split
  exact ⟨front.symm, rest.symm⟩

end PetriQuery.Text
