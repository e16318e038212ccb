import PetriQuery.Markup.Fault

/-!
# References

Replacing the references in a text by the characters they stand for. A reference is an ampersand, a
name or the number of a character behind `#`, and a semicolon; no ampersand stands between the two.

Main facts: a text without ampersands is left alone (`unescape_eq_self`).
-/

set_option autoImplicit false

namespace PetriQuery.Markup

/-- How many bytes the characters of a text take. -/
def byteCount : List Char → Nat
  | [] => 0
  | c :: rest => c.utf8Size + byteCount rest

/-- The character that a name stands for. -/
def namedEntity? (name : List Char) : Option Char :=
  if name = "lt".toList then some '<'
  else if name = "gt".toList then some '>'
  else if name = "amp".toList then some '&'
  else if name = "apos".toList then some '\''
  else if name = "quot".toList then some '"'
  else none

/-- The number of a character, written in a base and without a sign. -/
def codepoint (base : Nat) : List Char → Except CharRefFault Nat
  -- Numbers in general may have a plus sign; the number of a character may not.
  | '+' :: _ | '-' :: _ => .error .sign
  | digits => (Numeral.readNat base 0xffffffff digits).mapError .number

/-- The character that a number stands for: hexadecimal behind `x`, decimal without. -/
def numberedEntity (reference : List Char) : Except CharRefFault Char := do
  let code ←
    match reference with
    | 'x' :: digits => codepoint 16 digits
    | digits => codepoint 10 digits
  if code = 0 then .error .null
  else if h : code.isValidChar then .ok (Char.ofNatAux code h)
  else .error (.notCodepoint code)

/-- The character that the part of a reference between its ends stands for. The part starts `first`
bytes after the start of the text. -/
def entity (first : Nat) (reference : List Char) : Except EntityFault Char :=
  match reference with
  | '#' :: number => (numberedEntity number).mapError .charRef
  | name =>
    match namedEntity? name with
    | some c => .ok c
    | none =>
      .error (.unrecognized first (first + byteCount name) (String.ofList name))

/-- Whether a character can end the part of a reference after its ampersand. -/
def endsReference (c : Char) : Bool := c = '&' || c = ';'

/-- Replaces the references in the rest of a text of `size` bytes, of which `position` have been
passed. The characters so far are in `done`, the last one first. -/
def unescapeFrom (size position : Nat) (done : List Char) (input : List Char) :
    Except EntityFault (List Char) :=
  match input with
  | [] => .ok done.reverse
  | '&' :: rest =>
    let reference := rest.takeWhile fun c => !endsReference c
    match _after : rest.dropWhile fun c => !endsReference c with
    | ';' :: after =>
      match entity (position + 1) reference with
      | .ok c =>
        unescapeFrom size (position + byteCount reference + 2) (c :: done) after
      | .error fault => .error fault
    -- The text ends, or another reference starts, before a semicolon.
    | _ => .error (.unterminated position size)
  | c :: rest => unescapeFrom size (position + c.utf8Size) (c :: done) rest
termination_by input.length
decreasing_by
  · have shorter := (List.dropWhile_sublist (fun c => !endsReference c) (l := rest)).length_le
    rw [_after] at shorter
    simp only [List.length_cons] at shorter ⊢
    omega
  · simp

/-- A text with its references replaced. -/
def unescape (text : String) : Except EntityFault String :=
  (unescapeFrom (byteCount text.toList) 0 [] text.toList).map String.ofList

/-- Characters other than ampersands stand for themselves. -/
theorem unescapeFrom_append {size position : Nat} {done plain rest : List Char}
    (h : ∀ c ∈ plain, c ≠ '&') :
    unescapeFrom size position done (plain ++ rest)
      = unescapeFrom size (position + byteCount plain) (plain.reverse ++ done) rest := by
  induction plain generalizing position done with
  | nil => rfl
  | cons c plain ih =>
    have differs := h c List.mem_cons_self
    rw [List.cons_append, unescapeFrom.eq_3 _ _ _ _ _ (fun h => differs h),
      ih fun d member => h d (List.mem_cons_of_mem _ member)]
    simp [byteCount, Nat.add_assoc]

/-- A text without ampersands is left alone. -/
theorem unescape_eq_self {text : String} (h : '&' ∉ text.toList) : unescape text = .ok text := by
  have plain : ∀ c ∈ text.toList, c ≠ '&' := by
    rintro c member rfl
    exact h member
  have all := @unescapeFrom_append (byteCount text.toList) 0 [] text.toList [] plain
  rw [List.append_nil] at all
  rw [unescape, all, unescapeFrom]
  simp [Except.map, String.ofList_toList]

end PetriQuery.Markup
