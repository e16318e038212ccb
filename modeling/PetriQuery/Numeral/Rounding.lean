import PetriQuery.Numeral.Binary32

/-!
# Rounding to binary32

The number of the format that is nearest to a positive fraction, a fraction half way between two
numbers going to the one with an even significand. Past the largest finite number by half a unit or
more lies infinity, below half of the smallest positive number zero.
-/

set_option autoImplicit false

namespace PetriQuery.Numeral

/-- The natural number nearest to `num / den`, the even one of two that are as near. -/
def roundQuotient (num den : Nat) : Nat :=
  let low := num / den
  let rest := num % den
  if 2 * rest < den then low
  else if den < 2 * rest then low + 1
  else low + low % 2

/-- The largest `e` with `2 ^ e ≤ num / den`, for positive `num` and `den`. -/
def floorLog2 (num den : Nat) : Int :=
  -- The logarithms of the two drop less than one each, so the guess is right or one too large.
  let guess : Int := (Nat.log2 num : Int) - Nat.log2 den
  if num * Nat.pow 2 (-guess).toNat < den * Nat.pow 2 guess.toNat then guess - 1 else guess

/-- The number nearest to the positive fraction `num / den`. Its significand counts by the largest
power of two that leaves it 24 bits, but no smaller one than the format has. A significand that
rounds up to 25 bits carries into the exponent. -/
def Binary32.ofFraction (negative : Bool) (num den : Nat) : Binary32 :=
  let scale := max (floorLog2 num den - 23) (-149)
  let significand :=
    roundQuotient (num * Nat.pow 2 (-scale).toNat) (den * Nat.pow 2 scale.toNat)
  -- A full significand has the implied bit, which counts as one in the field of the exponent.
  .ofMagnitude negative
    (min ((scale + 149).toNat * Binary32.exponentBit + significand) Binary32.infinityMagnitude)

/-- The number nearest to `digits * 10 ^ exponent`, where `digits` has `length` decimal digits.
Powers of ten far beyond the range of the format are not computed. -/
def Binary32.ofDecimal (negative : Bool) (digits length : Nat) (exponent : Int) : Binary32 :=
  if digits = 0 ∨ length + exponent ≤ -46 then .ofMagnitude negative 0
  else if 40 ≤ length + exponent then .infinity negative
  else .ofFraction negative (digits * Nat.pow 10 exponent.toNat) (Nat.pow 10 (-exponent).toNat)

/-- A quotient rounds to a number at most half a unit away. -/
theorem two_mul_roundQuotient_mul_le (num : Nat) {den : Nat} (pos : 0 < den) :
    2 * (roundQuotient num den * den) ≤ 2 * num + den
      ∧ 2 * num ≤ 2 * (roundQuotient num den * den) + den := by
  have split := Nat.div_add_mod num den
  have small := Nat.mod_lt num pos
  have comm : den * (num / den) = num / den * den := Nat.mul_comm _ _
  have next : (num / den + 1) * den = num / den * den + den := Nat.add_one_mul _ _
  simp only [roundQuotient]
  split
  · omega
  · split
    · omega
    -- Half way between two numbers, either of them is half a unit away.
    · rcases Nat.mod_two_eq_zero_or_one (num / den) with even | odd
      · rw [even, Nat.add_zero]
        omega
      · rw [odd]
        omega

end PetriQuery.Numeral
