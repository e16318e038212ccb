import PetriQuery.Numeral.Rounding

/-!
# Fraction numerals

Reading numbers of the format binary32. A numeral is an optional sign and then either one of the
words `inf`, `infinity` and `nan`, in any case, or decimal digits with at most one point among or
beside them, and an optional exponent. The number read is the one nearest to the exact value.
-/

set_option autoImplicit false

namespace PetriQuery.Numeral

/-- A decimal numeral without its sign: the value is `digits * 10 ^ exponent`, where the number
`digits` is written with `length` digits, none of them a leading zero. -/
structure Decimal where
  digits : Nat
  length : Nat
  exponent : Int
deriving DecidableEq, Repr

/-- The value of a list of decimal digits. -/
def digitsValue (cs : List Char) : Nat :=
  cs.foldl (fun value c => value * 10 + (c.toNat - '0'.toNat)) 0

/-- The sign in front of a numeral, and what follows it. -/
def splitSign : List Char → Bool × List Char
  | '-' :: rest => (true, rest)
  | '+' :: rest => (false, rest)
  | cs => (false, cs)

/-- The exponent that ends a numeral: nothing at all, or `e` and a signed number. -/
def readExponent? : List Char → Option Int
  | [] => some 0
  | c :: rest =>
    if c = 'e' ∨ c = 'E' then
      let (negative, digits) := splitSign rest
      if digits.isEmpty ∨ !digits.all Char.isDigit then none
      else some (if negative then -digitsValue digits else digitsValue digits)
    else none

/-- The digits after the point of a numeral, none if there is no point, and what follows them. -/
def splitFraction : List Char → List Char × List Char
  | '.' :: rest => rest.span Char.isDigit
  | rest => ([], rest)

/-- A decimal numeral without a sign. -/
def readDecimal? (cs : List Char) : Option Decimal :=
  let (whole, rest) := cs.span Char.isDigit
  let (fraction, rest) := splitFraction rest
  let written := whole ++ fraction
  if written.isEmpty then none
  else
    (readExponent? rest).map fun exponent =>
      let significant := written.dropWhile (· = '0')
      ⟨digitsValue significant, significant.length, exponent - fraction.length⟩

/-- The number that a numeral denotes. -/
def Binary32.read? (cs : List Char) : Option Binary32 :=
  let (negative, body) := splitSign cs
  let word := body.map Char.toLower
  if word = "inf".toList ∨ word = "infinity".toList then some (.infinity negative)
  else if word = "nan".toList then some (.nan negative)
  else (readDecimal? body).map fun d => .ofDecimal negative d.digits d.length d.exponent

end PetriQuery.Numeral
