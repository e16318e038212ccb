import PetriQuery.Numeral.Reading
import PetriQuery.Proofs.Numeral.Decimal
import Mathlib.Data.List.TakeDrop
import Mathlib.Data.List.TakeWhile

/-!
# Fraction numerals

Which characters write a number of the format binary32 (`IsFraction`). A numeral has no bound on its
digits: what lies beyond the format is rounded and never refused, so that a number is read from
these characters and from no others (`exists_read?_iff`).
-/

set_option autoImplicit false

namespace PetriQuery.Numeral

/-- Behind an optional sign, the characters have the property. -/
def Signed (P : List Char → Prop) : List Char → Prop
  | '-' :: body => P body
  | '+' :: body => P body
  | body => P body

/-- Nothing but decimal digits, and possibly nothing at all. -/
def AllDigits (cs : List Char) : Prop := ∀ c ∈ cs, c.isDigit = true

/-- What may end a fraction numeral: nothing, or `e` and an integer. -/
def IsExponent : List Char → Prop
  | [] => True
  | mark :: integer => (mark = 'e' ∨ mark = 'E') ∧ Signed IsDigits integer

/-- Digits with at most one point among or beside them, at least one digit, and an exponent. -/
def IsDecimal (cs : List Char) : Prop :=
  ∃ whole fraction exponent, AllDigits whole ∧ AllDigits fraction ∧ IsExponent exponent
    ∧ whole ++ fraction ≠ []
    ∧ ((cs = whole ++ exponent ∧ fraction = []) ∨ cs = whole ++ '.' :: (fraction ++ exponent))

/-- One of the words for what is no finite number, in any case. -/
def IsWord (cs : List Char) : Prop :=
  cs.map Char.toLower ∈ ["inf".toList, "infinity".toList, "nan".toList]

/-- A decimal fraction or a word behind an optional sign. -/
def IsFraction : List Char → Prop := Signed fun body => IsWord body ∨ IsDecimal body

/-! ## Signs and exponents -/

/-- What stands behind an optional sign is what is left when the sign is split off. -/
theorem signed_iff {P : List Char → Prop} {cs : List Char} : Signed P cs ↔ P (splitSign cs).2 := by
  cases cs with
  | nil => rfl
  | cons c rest =>
    by_cases minus : c = '-'
    · subst minus
      rfl
    · by_cases plus : c = '+'
      · subst plus
        rfl
      · have signed : Signed P (c :: rest) = P (c :: rest) := by
          rw [Signed] <;> simp [minus, plus]
        have split : splitSign (c :: rest) = (false, c :: rest) := by
          rw [splitSign] <;> simp [minus, plus]
        rw [signed, split]

/-- An exponent is read from what may end a numeral. -/
theorem isSome_readExponent?_iff {cs : List Char} :
    (readExponent? cs).isSome = true ↔ IsExponent cs := by
  cases cs with
  | nil => simp [readExponent?, IsExponent]
  | cons mark rest =>
    rw [readExponent?, IsExponent, signed_iff, IsDigits]
    by_cases marked : mark = 'e' ∨ mark = 'E'
    · rw [if_pos marked, and_iff_right marked]
      simp only []
      split
      · next wrong => simpa [Decidable.imp_iff_not_or] using wrong
      · next right => simpa [not_or] using right
    · simp [marked]

/-- An exponent begins with no digit and no point. -/
theorem head?_of_isExponent {cs : List Char} (h : IsExponent cs) :
    ∀ c ∈ cs.head?, c.isDigit = false ∧ c ≠ '.' := by
  intro c first
  cases cs with
  | nil => cases first
  | cons mark rest =>
    obtain rfl : mark = c := Option.some.inj first
    rcases h.1 with rfl | rfl <;> decide

/-! ## Decimal fractions -/

/-- What is of a kind is split off up to the first one that is not of the kind. -/
theorem span_append {α : Type} {p : α → Bool} {front rest : List α} (all : ∀ c ∈ front, p c = true)
    (stop : ∀ c ∈ rest.head?, p c = false) : (front ++ rest).span p = (front, rest) := by
  have none : rest.takeWhile p = [] ∧ rest.dropWhile p = rest := by
    cases rest with
    | nil => exact ⟨rfl, rfl⟩
    | cons c rest =>
      have other := stop c rfl
      simp [other]
  rw [List.span_eq_takeWhile_dropWhile, List.takeWhile_append_of_pos all,
    List.dropWhile_append_of_pos all, none.1, none.2, List.append_nil]

/-- Digits that are split off are digits, and are in front of what is left. -/
theorem of_span {cs digits rest : List Char} (h : cs.span Char.isDigit = (digits, rest)) :
    cs = digits ++ rest ∧ AllDigits digits := by
  rw [List.span_eq_takeWhile_dropWhile, Prod.mk.injEq] at h
  obtain ⟨rfl, rfl⟩ := h
  exact ⟨List.takeWhile_append_dropWhile.symm, fun _ => List.mem_takeWhile_imp⟩

/-- Without a point there is no fraction. -/
theorem splitFraction_of_ne {cs : List Char} (h : ∀ c ∈ cs.head?, c ≠ '.') :
    splitFraction cs = ([], cs) := by
  unfold splitFraction
  split
  · exact absurd rfl (h '.' rfl)
  · rfl

/-- A decimal fraction is read from digits around a point and an exponent. -/
theorem isSome_readDecimal?_iff {cs : List Char} :
    (readDecimal? cs).isSome = true ↔ IsDecimal cs := by
  have parts : (readDecimal? cs).isSome = true
      ↔ (cs.span Char.isDigit).1 ++ (splitFraction (cs.span Char.isDigit).2).1 ≠ []
        ∧ IsExponent (splitFraction (cs.span Char.isDigit).2).2 := by
    rw [readDecimal?, ← isSome_readExponent?_iff]
    simp only []
    split
    · next empty => simpa using fun whole => absurd empty (by simpa using whole)
    · next some => simpa using fun _ => by simpa using some
  rw [parts]
  constructor
  · rintro ⟨notEmpty, exponent⟩
    obtain ⟨same, digits⟩ := of_span (Prod.eta (cs.span Char.isDigit)).symm
    by_cases point : ∃ rest, (cs.span Char.isDigit).2 = '.' :: rest
    · obtain ⟨rest, point⟩ := point
      rw [point, splitFraction] at notEmpty exponent
      obtain ⟨same', digits'⟩ := of_span (Prod.eta (rest.span Char.isDigit)).symm
      refine ⟨_, _, _, digits, digits', exponent, notEmpty, .inr ?_⟩
      rw [← same', ← point]
      exact same
    · have other : splitFraction (cs.span Char.isDigit).2 = ([], (cs.span Char.isDigit).2) := by
        apply splitFraction_of_ne
        rintro c first rfl
        exact point (List.head?_eq_some_iff.1 first)
      rw [other] at notEmpty exponent
      exact ⟨_, [], _, digits, nofun, exponent, notEmpty, .inl ⟨same, rfl⟩⟩
  · rintro ⟨whole, fraction, exponent, digits, digits', ends, notEmpty, ⟨rfl, rfl⟩ | rfl⟩
    · have stop := head?_of_isExponent ends
      rw [span_append digits fun c first => (stop c first).1,
        splitFraction_of_ne fun c first => (stop c first).2]
      exact ⟨notEmpty, ends⟩
    · have point : ∀ c ∈ ('.' :: (fraction ++ exponent)).head?, c.isDigit = false := by
        rintro c ⟨rfl⟩
        rfl
      have stop := head?_of_isExponent ends
      rw [span_append digits point, splitFraction,
        span_append digits' fun c first => (stop c first).1]
      exact ⟨notEmpty, ends⟩

/-- **The numbers of the format are read from the fraction numerals and from nothing else.** -/
theorem exists_read?_iff {cs : List Char} :
    (∃ x, Binary32.read? cs = some x) ↔ IsFraction cs := by
  rw [IsFraction, signed_iff, ← isSome_readDecimal?_iff, IsWord, ← Option.isSome_iff_exists]
  unfold Binary32.read?
  simp only [List.mem_cons, List.not_mem_nil, or_false]
  split
  · next word =>
    rcases word with word | word
    · simp [word]
    · simp [word]
  · next notWord =>
    obtain ⟨notInf, notInfinity⟩ := not_or.1 notWord
    split
    · next word => simp [word]
    · next notNaN => simp only [notInf, notInfinity, notNaN, false_or, Option.isSome_map]

end PetriQuery.Numeral
