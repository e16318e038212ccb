/-!
# Integer numerals

Reading integers of a fixed range from their digits. The characters are judged from left to right:
at each one, a character that is no digit is refused before a value that has left the range. So the
first fault of a numeral decides how it is refused, and no digit after it counts.
-/

set_option autoImplicit false

namespace PetriQuery.Numeral

/-- Why a text is no integer of the wanted range. -/
inductive IntegerFault where
  | empty
  | invalidDigit
  | tooLarge
  | tooSmall
deriving DecidableEq, Repr

/-- The wording of a fault. -/
def IntegerFault.message : IntegerFault → String
  | .empty => "cannot parse integer from empty string"
  | .invalidDigit => "invalid digit found in string"
  | .tooLarge => "number too large to fit in target type"
  | .tooSmall => "number too small to fit in target type"

/-- The value of a digit: `0` to `9`, then the letters `a` to `z` in either case, as far as the base
has digits. -/
def digit? (base : Nat) (c : Char) : Option Nat :=
  let value :=
    if '0' ≤ c ∧ c ≤ '9' then c.toNat - '0'.toNat
    else if 'a' ≤ c ∧ c ≤ 'z' then c.toNat - 'a'.toNat + 10
    else if 'A' ≤ c ∧ c ≤ 'Z' then c.toNat - 'A'.toNat + 10
    else base
  if value < base then some value else none

/-- Continues a number whose digits so far have the value `value`. Past `limit` the numeral is
refused with `overflow`. -/
def readDigits (base limit : Nat) (overflow : IntegerFault) (value : Nat) :
    List Char → Except IntegerFault Nat
  | [] => .ok value
  | c :: rest =>
    match digit? base c with
    | none => .error .invalidDigit
    | some d =>
      if value * base + d ≤ limit then readDigits base limit overflow (value * base + d) rest
      else .error overflow

/-- A natural number up to `limit`: an optional `+` and at least one digit. -/
def readNat (base limit : Nat) : List Char → Except IntegerFault Nat
  | [] => .error .empty
  | ['+'] => .error .invalidDigit
  | '+' :: rest => readDigits base limit .tooLarge 0 rest
  | digits => readDigits base limit .tooLarge 0 digits

/-- A signed integer of 32 bits in decimal: an optional sign and at least one digit. -/
def readInt32 : List Char → Except IntegerFault Int32
  | [] => .error .empty
  | ['+'] => .error .invalidDigit
  | ['-'] => .error .invalidDigit
  -- There is one more number below zero than above.
  | '-' :: rest => (readDigits 10 0x80000000 .tooSmall 0 rest).map fun n => Int32.ofInt (-n)
  | '+' :: rest => (readDigits 10 0x7fffffff .tooLarge 0 rest).map fun n => Int32.ofNat n
  | digits => (readDigits 10 0x7fffffff .tooLarge 0 digits).map fun n => Int32.ofNat n

end PetriQuery.Numeral
