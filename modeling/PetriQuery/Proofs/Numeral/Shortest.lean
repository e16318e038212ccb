import PetriQuery.Numeral.Shortest
import Mathlib.Algebra.Order.Field.Power
import Mathlib.Data.Rat.Cast.Order
import Mathlib.Tactic.Linarith
import Mathlib.Tactic.NormNum
import Mathlib.Tactic.Positivity
import Mathlib.Tactic.Ring

/-!
# Shortest decimals name their numbers

The decimal that stands for a number lies in the interval of what rounds to it
(`Binary32.admits_shortest`), and the intervals of numbers that differ in their magnitudes have no
point in common (`Binary32.magnitude_eq_of_admits`): two neighbouring intervals share an end, but
only one of them contains it, as of two consecutive significands one is odd.
-/

set_option autoImplicit false

namespace PetriQuery.Numeral

/-- The value of a decimal. -/
def decimalValue (n : Nat) (power : Int) : ℚ := n * 10 ^ power

/-- The value belongs to the interval of what rounds to a number. -/
def Surroundings.Admits (s : Surroundings) (q : ℚ) : Prop :=
  if s.closed then s.low * 2 ^ s.scale ≤ q ∧ q ≤ s.high * 2 ^ s.scale
  else s.low * 2 ^ s.scale < q ∧ q < s.high * 2 ^ s.scale

/-- A power is one that is no fraction, over another one. -/
theorem zpow_mul_pow_toNat {b : ℚ} (nonzero : b ≠ 0) (k : Int) :
    b ^ k * b ^ (-k).toNat = b ^ k.toNat := by
  rw [← zpow_natCast, ← zpow_natCast, ← zpow_add₀ nonzero]
  congr 1
  omega

/-! ## Grids -/

namespace Surroundings

variable {s : Surroundings} {power : Int} {tie : Tie} {n : Nat}

/-- What one stands for in the ends of an interval, when a grid is compared with them. -/
def endUnit (s : Surroundings) (power : Int) : Nat :=
  Nat.pow 2 s.scale.toNat * Nat.pow 10 (-power).toNat

/-- What one stands for in the multiples of a grid, when they are compared with an interval. -/
def gridUnit (s : Surroundings) (power : Int) : Nat :=
  Nat.pow 10 power.toNat * Nat.pow 2 (-s.scale).toNat

/-- Whether a multiple of a grid belongs to the interval. -/
def contains (s : Surroundings) (power : Int) (n : Nat) : Bool :=
  if s.closed then
    s.low * s.endUnit power ≤ n * s.gridUnit power
      && n * s.gridUnit power ≤ s.high * s.endUnit power
  else
    s.low * s.endUnit power < n * s.gridUnit power
      && n * s.gridUnit power < s.high * s.endUnit power

/-- The multiple just below the number, or the number itself. -/
def below (s : Surroundings) (power : Int) : Nat := s.value * s.endUnit power / s.gridUnit power

/-- Of the two multiples beside the number, one that belongs to the interval is found. -/
theorem onGrid?_eq (s : Surroundings) (tie : Tie) (power : Int) :
    ∃ preferAbove : Bool, s.onGrid? tie power
      = match s.contains power (s.below power), s.contains power (s.below power + 1) with
        | true, true => some (if preferAbove then s.below power + 1 else s.below power)
        | true, false => some (s.below power)
        | false, true => some (s.below power + 1)
        | false, false => none :=
  ⟨_, rfl⟩

/-- A multiple that is found on a grid belongs to the interval. -/
theorem contains_of_onGrid? (h : s.onGrid? tie power = some n) : s.contains power n = true := by
  obtain ⟨preferAbove, same⟩ := s.onGrid?_eq tie power
  rw [same] at h
  split at h
  · next below above =>
    obtain rfl := Option.some.inj h
    cases preferAbove with
    | true => exact above
    | false => exact below
  · next below _ =>
    obtain rfl := Option.some.inj h
    exact below
  · next _ above =>
    obtain rfl := Option.some.inj h
    exact above
  · cases h

/-- A multiple is found on a grid if the one below the number belongs to the interval. -/
theorem exists_onGrid? (inside : s.contains power (s.below power) = true) :
    ∃ n, s.onGrid? tie power = some n := by
  obtain ⟨preferAbove, same⟩ := s.onGrid?_eq tie power
  rw [same, inside]
  cases s.contains power (s.below power + 1) with
  | true => exact ⟨_, rfl⟩
  | false => exact ⟨_, rfl⟩

/-- The first grid that meets the interval is found if the last one meets it. -/
theorem contains_firstGrid {left : Nat} (last : ∃ n, s.onGrid? tie (power - left) = some n) :
    s.contains (s.firstGrid tie power left).2 (s.firstGrid tie power left).1 = true := by
  induction left generalizing power with
  | zero =>
    obtain ⟨n, found⟩ := last
    rw [Int.natCast_zero, Int.sub_zero] at found
    rw [firstGrid, found]
    exact contains_of_onGrid? found
  | succ left ih =>
    rw [firstGrid]
    split
    · next n found => exact contains_of_onGrid? found
    · apply ih
      rw [Int.sub_sub, Int.add_comm 1]
      exact last

/-- The factor between the units of the comparison and those of the values. -/
def factor (s : Surroundings) (power : Int) : ℚ := 2 ^ (-s.scale).toNat * 10 ^ (-power).toNat

theorem factor_pos (s : Surroundings) (power : Int) : 0 < s.factor power := by
  rw [factor]
  positivity

/-- An end of the interval in the unit of the comparison. -/
theorem cast_mul_endUnit (s : Surroundings) (power : Int) (a : Nat) :
    ((a * s.endUnit power : Nat) : ℚ) = a * 2 ^ s.scale * s.factor power := by
  have two := zpow_mul_pow_toNat (b := 2) (by norm_num) s.scale
  push_cast [endUnit, Nat.pow_eq, factor]
  rw [← two]
  ring

/-- A multiple of the grid in the unit of the comparison. -/
theorem cast_mul_gridUnit (s : Surroundings) (power : Int) (n : Nat) :
    ((n * s.gridUnit power : Nat) : ℚ) = decimalValue n power * s.factor power := by
  have ten := zpow_mul_pow_toNat (b := 10) (by norm_num) power
  push_cast [gridUnit, Nat.pow_eq, factor]
  rw [decimalValue, ← ten]
  ring

/-- Natural numbers are compared in place of an end and a multiple of the grid. -/
theorem endUnit_le_gridUnit_iff (s : Surroundings) (power : Int) (a n : Nat) :
    (a * s.endUnit power ≤ n * s.gridUnit power ↔ a * 2 ^ s.scale ≤ decimalValue n power)
      ∧ (n * s.gridUnit power ≤ a * s.endUnit power
        ↔ decimalValue n power ≤ a * 2 ^ s.scale) := by
  have pos := s.factor_pos power
  rw [← Nat.cast_le (α := ℚ), ← Nat.cast_le (α := ℚ), cast_mul_endUnit, cast_mul_gridUnit,
    mul_le_mul_iff_left₀ pos, mul_le_mul_iff_left₀ pos]
  exact ⟨Iff.rfl, Iff.rfl⟩

/-- The comparison decides whether a multiple belongs to the interval. -/
theorem contains_iff : s.contains power n = true ↔ s.Admits (decimalValue n power) := by
  have low := s.endUnit_le_gridUnit_iff power s.low n
  have high := s.endUnit_le_gridUnit_iff power s.high n
  rw [contains, Admits]
  split
  · rw [Bool.and_eq_true, decide_eq_true_eq, decide_eq_true_eq, low.1, high.2]
  · rw [Bool.and_eq_true, decide_eq_true_eq, decide_eq_true_eq, ← not_le, ← not_le, low.2, high.1,
      not_le, not_le]

end Surroundings

/-! ## The intervals of numbers -/

namespace Binary32

/-- The significand of a number, with the implied bit or without it. -/
theorem significand_bounds (x : Binary32) :
    (x.exponentField = 0 → x.significand < exponentBit)
      ∧ (x.exponentField ≠ 0 → exponentBit ≤ x.significand ∧ x.significand < 2 * exponentBit) := by
  have fraction : x.magnitude % exponentBit < exponentBit := Nat.mod_lt _ (by decide)
  constructor
  · intro none
    rw [significand, if_pos none]
    omega
  · intro some
    rw [significand, if_neg some]
    omega

/-- The interval of a number has the number strictly between its ends, but for zero. -/
theorem between_surroundings (x : Binary32) :
    x.surroundings.low ≤ x.surroundings.value ∧ x.surroundings.value < x.surroundings.high
      ∧ (x.surroundings.closed = false → x.surroundings.low < x.surroundings.value) := by
  refine ⟨Nat.sub_le _ _, Nat.lt_add_of_pos_right (by decide), ?_⟩
  intro odd
  have positive : 0 < x.significand := by
    apply Nat.pos_of_ne_zero
    intro zero
    simp [surroundings, zero] at odd
  simp only [surroundings]
  split <;> omega

/-- A number lies on the grid of the multiples of `10 ^ (-149)`, and so in its own interval. -/
theorem contains_below (x : Binary32) :
    x.surroundings.contains (-149) (x.surroundings.below (-149)) = true := by
  have divides : x.surroundings.gridUnit (-149)
      ∣ x.surroundings.value * x.surroundings.endUnit (-149) := by
    have shift : (-x.surroundings.scale).toNat ≤ 151 := by
      simp only [surroundings, scale]
      omega
    have twos : 2 ^ (-x.surroundings.scale).toNat ∣ 4 * 10 ^ 149 :=
      Nat.dvd_trans (Nat.pow_dvd_pow 2 shift) ⟨5 ^ 149, by norm_num⟩
    have same : x.surroundings.value * x.surroundings.endUnit (-149)
        = 4 * 10 ^ 149 * (x.significand * 2 ^ x.surroundings.scale.toNat) := by
      simp only [Surroundings.endUnit, Nat.pow_eq]
      change 4 * x.significand * (2 ^ x.surroundings.scale.toNat * 10 ^ 149) = _
      ring
    have unit : x.surroundings.gridUnit (-149) = 2 ^ (-x.surroundings.scale).toNat :=
      Nat.one_mul _
    rw [same, unit]
    exact Nat.dvd_mul_right_of_dvd twos _
  have exact : x.surroundings.below (-149) * x.surroundings.gridUnit (-149)
      = x.surroundings.value * x.surroundings.endUnit (-149) := Nat.div_mul_cancel divides
  have unit : 0 < x.surroundings.endUnit (-149) :=
    Nat.mul_pos (Nat.pow_pos (by decide)) (Nat.pow_pos (by decide))
  obtain ⟨low, high, strict⟩ := x.between_surroundings
  rw [Surroundings.contains, exact]
  cases closed : x.surroundings.closed with
  | true =>
    simp only [if_true, Bool.and_eq_true, decide_eq_true_eq]
    exact ⟨Nat.mul_le_mul_right _ low, Nat.mul_le_mul_right _ (Nat.le_of_lt high)⟩
  | false =>
    simp only [Bool.false_eq_true, if_false, Bool.and_eq_true, decide_eq_true_eq]
    exact ⟨Nat.mul_lt_mul_of_pos_right (strict closed) unit,
      Nat.mul_lt_mul_of_pos_right high unit⟩

/-- The shortest decimal of a number lies in its interval. -/
theorem admits_shortest (tie : Tie) (x : Binary32) :
    x.surroundings.Admits (decimalValue (x.shortest tie).1 (x.shortest tie).2) := by
  apply Surroundings.contains_iff.1
  rw [shortest]
  split
  · next zero =>
    have zero : x.magnitude = 0 := of_decide_eq_true zero
    have none : x.significand = 0 := by
      rw [significand, exponentField, zero]
      rfl
    simp [Surroundings.contains, surroundings, none]
  · exact Surroundings.contains_firstGrid (Surroundings.exists_onGrid? x.contains_below)

/-! ## Different intervals -/

/-- The lower end of the interval, in units of `2 ^ (-151)`. -/
def lowEnd (x : Binary32) : Nat := x.surroundings.low * 2 ^ (max x.exponentField 1 - 1)

/-- The upper end of the interval, in units of `2 ^ (-151)`. -/
def highEnd (x : Binary32) : Nat := x.surroundings.high * 2 ^ (max x.exponentField 1 - 1)

/-- Of two numbers of one exponent the one with the larger magnitude has the larger significand. -/
theorem exponentField_lt_or_of_lt {x y : Binary32} (less : x.magnitude < y.magnitude) :
    x.exponentField < y.exponentField
      ∨ (x.exponentField = y.exponentField ∧ x.significand < y.significand) := by
  have fields : x.exponentField ≤ y.exponentField := Nat.div_le_div_right (Nat.le_of_lt less)
  rcases Nat.lt_or_eq_of_le fields with smaller | same
  · exact Or.inl smaller
  · refine Or.inr ⟨same, ?_⟩
    have split := Nat.div_add_mod x.magnitude exponentBit
    have split' := Nat.div_add_mod y.magnitude exponentBit
    have quotients : x.magnitude / exponentBit = y.magnitude / exponentBit := same
    rw [quotients] at split
    rw [significand, significand, same]
    omega

/-- The lower end of a number with an implied bit, in quarter units. -/
theorem le_low (x : Binary32) (implied : 0 < x.exponentField) :
    4 * exponentBit - 2 ≤ x.surroundings.low
      ∧ (1 < x.exponentField → 4 * exponentBit - 1 ≤ x.surroundings.low) := by
  have large := (x.significand_bounds.2 (Nat.pos_iff_ne_zero.1 implied)).1
  simp only [surroundings]
  split
  · omega
  · omega

/-- The interval contains its ends iff the significand is even. -/
theorem closed_iff (x : Binary32) : x.surroundings.closed = true ↔ x.significand % 2 = 0 :=
  decide_eq_true_iff

/-- The interval of a smaller number ends no later than that of a larger number begins, and earlier
if both contain their ends. -/
theorem highEnd_le_lowEnd {x y : Binary32} (less : x.magnitude < y.magnitude) :
    x.highEnd ≤ y.lowEnd
      ∧ (x.surroundings.closed = true → y.surroundings.closed = true → x.highEnd < y.lowEnd) := by
  have bit : exponentBit = 8388608 := rfl
  have high : x.surroundings.high = 4 * x.significand + 2 := rfl
  obtain ⟨small, large⟩ := x.significand_bounds
  rw [closed_iff, closed_iff, highEnd, lowEnd, high]
  rcases exponentField_lt_or_of_lt less with exponents | ⟨exponents, significands⟩
  · obtain ⟨least, above⟩ := y.le_low (Nat.lt_of_le_of_lt (Nat.zero_le _) exponents)
    by_cases first : y.exponentField = 1
    · -- Below the first number with an implied bit there are those without one, as close.
      have none : x.exponentField = 0 := by omega
      have bound := small none
      rw [none, first, show max 0 1 - 1 = 0 from rfl, show max 1 1 - 1 = 0 from rfl, Nat.pow_zero,
        Nat.mul_one, Nat.mul_one]
      constructor
      · omega
      · omega
    · -- The larger number counts by twice as much or more.
      have shift : 2 * 2 ^ (max x.exponentField 1 - 1) ≤ 2 ^ (max y.exponentField 1 - 1) := by
        rw [← Nat.pow_succ']
        exact Nat.pow_le_pow_right (by decide) (by omega)
      have later : (8 * exponentBit - 2) * 2 ^ (max x.exponentField 1 - 1)
          ≤ y.surroundings.low * 2 ^ (max y.exponentField 1 - 1) := by
        calc (8 * exponentBit - 2) * 2 ^ (max x.exponentField 1 - 1)
            = (4 * exponentBit - 1) * (2 * 2 ^ (max x.exponentField 1 - 1)) := by
              rw [← Nat.mul_assoc]
              congr 1
          _ ≤ y.surroundings.low * 2 ^ (max y.exponentField 1 - 1) :=
              Nat.mul_le_mul (above (by omega)) shift
      constructor
      · exact Nat.le_trans (Nat.mul_le_mul_right _ (by omega)) later
      · intro even _
        refine Nat.lt_of_lt_of_le (Nat.mul_lt_mul_of_pos_right ?_ (Nat.pow_pos (by decide))) later
        omega
  · -- Numbers of one exponent are a unit apart or more, and the larger is no power of two.
    have low : y.surroundings.low = 4 * y.significand - 2 := by
      have other : ¬ (y.significand = exponentBit ∧ 1 < y.exponentField) := by omega
      simp only [surroundings, if_neg other]
    rw [low, ← exponents]
    constructor
    · exact Nat.mul_le_mul_right _ (by omega)
    · intro even even'
      exact Nat.mul_lt_mul_of_pos_right (by omega) (Nat.pow_pos (by decide))

/-- The ends of an interval in their unit. -/
theorem admits_iff_ends (x : Binary32) (q : ℚ) :
    x.surroundings.Admits q
      ↔ if x.surroundings.closed then
          (x.lowEnd : ℚ) * 2 ^ (-151 : Int) ≤ q ∧ q ≤ x.highEnd * 2 ^ (-151 : Int)
        else (x.lowEnd : ℚ) * 2 ^ (-151 : Int) < q ∧ q < x.highEnd * 2 ^ (-151 : Int) := by
  have unit : ∀ a : Nat, ((a * 2 ^ (max x.exponentField 1 - 1) : Nat) : ℚ) * 2 ^ (-151 : Int)
      = a * 2 ^ x.surroundings.scale := by
    intro a
    rw [Nat.cast_mul, Nat.cast_pow, Nat.cast_ofNat, mul_assoc, ← zpow_natCast,
      ← zpow_add₀ (by norm_num)]
    congr 2
    simp only [surroundings, scale]
    omega
  rw [Surroundings.Admits, lowEnd, highEnd, unit, unit]

/-- **No decimal lies in the intervals of two numbers with different magnitudes.** -/
theorem magnitude_eq_of_admits {x y : Binary32} {q : ℚ} (first : x.surroundings.Admits q)
    (second : y.surroundings.Admits q) : x.magnitude = y.magnitude := by
  have apart : ∀ {x y : Binary32}, x.surroundings.Admits q → y.surroundings.Admits q →
      ¬ x.magnitude < y.magnitude := by
    intro x y first second less
    obtain ⟨le, lt⟩ := highEnd_le_lowEnd less
    have unit : (0 : ℚ) < 2 ^ (-151 : Int) := by positivity
    have le : (x.highEnd : ℚ) * 2 ^ (-151 : Int) ≤ y.lowEnd * 2 ^ (-151 : Int) :=
      mul_le_mul_of_nonneg_right (Nat.cast_le.2 le) unit.le
    rw [admits_iff_ends] at first second
    split at first
    · next closed =>
      split at second
      · next closed' =>
        have lt : (x.highEnd : ℚ) * 2 ^ (-151 : Int) < y.lowEnd * 2 ^ (-151 : Int) :=
          mul_lt_mul_of_pos_right (Nat.cast_lt.2 (lt closed closed')) unit
        exact absurd (first.2.trans_lt (lt.trans_le second.1)) (lt_irrefl q)
      · exact absurd (first.2.trans_lt (le.trans_lt second.1)) (lt_irrefl q)
    · split at second
      · exact absurd (first.2.trans_le (le.trans second.1)) (lt_irrefl q)
      · exact absurd (first.2.trans (le.trans_lt second.1)) (lt_irrefl q)
  exact Nat.le_antisymm (Nat.not_lt.1 (apart second first)) (Nat.not_lt.1 (apart first second))

end Binary32

end PetriQuery.Numeral
