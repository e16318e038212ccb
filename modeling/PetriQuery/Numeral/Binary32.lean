/-!
# Binary fractions of 32 bits

A number of the format binary32, held as its 32 bits: a sign, eight bits of exponent and 23 bits of
fraction. A finite one has the exact value `±significand * 2 ^ scale`. Equality of the type is
equality of the bits; `agrees` is the comparison of the values, under which a NaN differs from
itself and the two zeros are equal.
-/

set_option autoImplicit false

namespace PetriQuery.Numeral

/-- A number of the format binary32. -/
structure Binary32 where
  bits : UInt32
deriving DecidableEq, Repr

namespace Binary32

/-- The value of the sign bit among the 32. -/
def signBit : Nat := 0x80000000

/-- The value of the lowest bit of exponent, and of the bit that a full significand implies. -/
def exponentBit : Nat := 0x800000

/-- The number with the sign given by `negative` and the low 31 bits `magnitude`. -/
def ofMagnitude (negative : Bool) (magnitude : Nat) : Binary32 :=
  ⟨UInt32.ofNat (magnitude + if negative then signBit else 0)⟩

/-- The low 31 bits, which order the numbers of one sign. -/
def magnitude (x : Binary32) : Nat := x.bits.toNat % signBit

/-- Whether the sign bit is set. -/
def isNegative (x : Binary32) : Bool := signBit ≤ x.bits.toNat

/-- The low 31 bits of an infinity: all eight bits of exponent set, no bit of fraction. -/
def infinityMagnitude : Nat := 255 * exponentBit

/-- Whether the number is no number. -/
def isNaN (x : Binary32) : Bool := infinityMagnitude < x.magnitude

/-- Whether the number is one of the two infinities. -/
def isInfinite (x : Binary32) : Bool := x.magnitude = infinityMagnitude

/-- Whether the number has a value. -/
def isFinite (x : Binary32) : Bool := x.magnitude < infinityMagnitude

/-- Whether the number is one of the two zeros. -/
def isZero (x : Binary32) : Bool := x.magnitude = 0

/-- The eight bits of exponent. -/
def exponentField (x : Binary32) : Nat := x.magnitude / exponentBit

/-- The significand of a finite number. The leading bit is implied unless the exponent bits are all
clear. -/
def significand (x : Binary32) : Nat :=
  x.magnitude % exponentBit + if x.exponentField = 0 then 0 else exponentBit

/-- The power of two by which the significand of a finite number counts. -/
def scale (x : Binary32) : Int := max x.exponentField 1 - 150

/-- Whether two numbers have equal values. -/
def agrees (x y : Binary32) : Bool :=
  !x.isNaN && !y.isNaN && (x.bits == y.bits || x.isZero && y.isZero)

/-- The infinity of a sign. -/
def infinity (negative : Bool) : Binary32 := ofMagnitude negative infinityMagnitude

/-- The quiet NaN of a sign, with no further bit set. -/
def nan (negative : Bool) : Binary32 := ofMagnitude negative (infinityMagnitude + exponentBit / 2)

/-- Zero with a clear sign. -/
def zero : Binary32 := ⟨0⟩

/-- A NaN agrees with nothing. -/
theorem agrees_of_isNaN {x y : Binary32} (h : x.isNaN = true) : x.agrees y = false := by
  simp [agrees, h]

/-- Every number that is not a NaN agrees with itself. -/
theorem agrees_self {x : Binary32} : x.agrees x = !x.isNaN := by
  cases h : x.isNaN <;> simp [agrees, h]

/-- Agreement is symmetric. -/
theorem agrees_comm (x y : Binary32) : x.agrees y = y.agrees x := by
  unfold agrees
  rw [Bool.and_comm (!x.isNaN), Bool.and_comm x.isZero, BEq.comm (a := x.bits)]

end Binary32

end PetriQuery.Numeral
