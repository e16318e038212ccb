import PetriQuery.Numeral.Shortest

/-!
# Number layouts

How the digits of a decimal are set. With the number written as `d.ddd * 10 ^ e`, a layout says for
which `e` the digits stand around a point in their place, and how the exponent is written for the
others. A number without fractional digits is written with one zero after the point.
-/

set_option autoImplicit false

namespace PetriQuery.Numeral

/-- How numbers are written. -/
structure Layout where
  /-- The least exponent of a number that is written without one. -/
  leastPlain : Int
  /-- The greatest exponent of a number that is written without one. -/
  greatestPlain : Int
  /-- What stands in front of an exponent that is not negative. -/
  plus : String
  /-- Which digits are chosen when two choices are as near. -/
  tie : Tie

/-- The layout of numbers in JSON. -/
def Layout.json : Layout where
  leastPlain := -6
  greatestPlain := 12
  plus := "+"
  tie := .even

/-- The layout of numbers in log records. -/
def Layout.log : Layout where
  leastPlain := -4
  greatestPlain := 15
  plus := ""
  tie := .up

/-- `n` zeros. -/
def zeros (n : Nat) : List Char := List.replicate n '0'

/-- The digits `first :: rest`, the first of them standing for the power `exponent` of ten. -/
def Layout.place (layout : Layout) (first : Char) (rest : List Char) (exponent : Int) :
    List Char :=
  if layout.leastPlain ≤ exponent ∧ exponent ≤ layout.greatestPlain then
    if exponent < 0 then '0' :: '.' :: zeros (-exponent - 1).toNat ++ first :: rest
    else
      let whole := exponent.toNat
      let fraction := rest.drop whole
      first :: rest.take whole ++ zeros (whole - rest.length)
        ++ '.' :: if fraction.isEmpty then ['0'] else fraction
  else
    let fraction := if rest.isEmpty then [] else '.' :: rest
    let mark := if exponent < 0 then "-" else layout.plus
    first :: fraction ++ 'e' :: mark.toList ++ (toString exponent.natAbs).toList

/-- The digits of `n` without the zeros at their end, and the number of these zeros. -/
def significantDigits (n : Nat) : List Char × Nat :=
  let digits := (toString n).toList
  let kept := (digits.reverse.dropWhile (· = '0')).reverse
  (kept, digits.length - kept.length)

/-- The text of a finite number. -/
def Layout.finite (layout : Layout) (x : Binary32) : String :=
  let sign := if x.isNegative then ['-'] else []
  let (n, power) := x.shortest layout.tie
  let (digits, dropped) := significantDigits n
  match digits with
  | [] => String.ofList (sign ++ ['0', '.', '0'])
  | first :: rest =>
    String.ofList (sign ++ layout.place first rest (rest.length + dropped + power))

/-- The text of a number that may be a NaN or an infinity. -/
def Layout.text (layout : Layout) (x : Binary32) : String :=
  if x.isNaN then "NaN"
  else if x.isInfinite then (if x.isNegative then "-inf" else "inf")
  else layout.finite x

end PetriQuery.Numeral
