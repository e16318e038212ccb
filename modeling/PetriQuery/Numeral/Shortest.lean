import PetriQuery.Numeral.Binary32

/-!
# Shortest decimals

The shortest decimal that reads back as a given number of the format binary32. The values that round
to the number form an interval around it, whose ends belong to it iff the significand is even. The
shortest decimal in the interval lies on the coarsest grid of multiples of a power of ten that meets
it; of the two multiples beside the number the nearer one is taken, and `Tie` says which one if both
are as near.
-/

set_option autoImplicit false

namespace PetriQuery.Numeral

/-- Which of two neighbouring multiples is taken for a number half way between them. -/
inductive Tie where
  /-- The even multiple. -/
  | even
  /-- The larger multiple. -/
  | up
deriving DecidableEq, Repr

/-- The quarter units of a number: it lies at `value`, and what rounds to it lies between `low` and
`high`, all three counting by `2 ^ scale`. The ends belong to the interval iff `closed`. -/
structure Surroundings where
  low : Nat
  value : Nat
  high : Nat
  scale : Int
  closed : Bool

/-- The surroundings of a finite number. Below a power of two the numbers lie twice as close, unless
it is the smallest power with a full significand. -/
def Binary32.surroundings (x : Binary32) : Surroundings where
  low :=
    4 * x.significand
      - if x.significand = Binary32.exponentBit ∧ 1 < x.exponentField then 1 else 2
  value := 4 * x.significand
  high := 4 * x.significand + 2
  scale := x.scale - 2
  closed := x.significand % 2 = 0

/-- A multiple of `10 ^ power` that reads back as the number with the given surroundings, the
nearest such multiple. -/
def Surroundings.onGrid? (s : Surroundings) (tie : Tie) (power : Int) : Option Nat :=
  -- Either power may be negative. With a factor on each side only natural numbers are compared.
  let unit := Nat.pow 2 s.scale.toNat * Nat.pow 10 (-power).toNat
  let grid := Nat.pow 10 power.toNat * Nat.pow 2 (-s.scale).toNat
  let inside (n : Nat) : Bool :=
    if s.closed then s.low * unit ≤ n * grid && n * grid ≤ s.high * unit
    else s.low * unit < n * grid && n * grid < s.high * unit
  let below := s.value * unit / grid
  let above := below + 1
  let preferAbove : Bool :=
    let down := s.value * unit - below * grid
    let rise := above * grid - s.value * unit
    rise < down || rise = down && (tie = .up || above % 2 = 0)
  match inside below, inside above with
  | true, true => some (if preferAbove then above else below)
  | true, false => some below
  | false, true => some above
  | false, false => none

/-- The first grid, from `power` downwards through `left` further ones, that meets the interval. -/
def Surroundings.firstGrid (s : Surroundings) (tie : Tie) (power : Int) : Nat → Nat × Int
  | 0 => ((s.onGrid? tie power).getD 0, power)
  | left + 1 =>
    match s.onGrid? tie power with
    | some n => (n, power)
    | none => s.firstGrid tie (power - 1) left

/-- The shortest decimal `n * 10 ^ k` that reads back as a finite number, as the pair of `n` and
`k`. Every finite number is a multiple of `10 ^ (-149)` below `10 ^ 39`, so a grid between these is
met. -/
def Binary32.shortest (tie : Tie) (x : Binary32) : Nat × Int :=
  if x.isZero then (0, 0) else x.surroundings.firstGrid tie 39 188

end PetriQuery.Numeral
