import PetriQuery.Markup.Bytes
import PetriQuery.Markup.Entity

/-!
# Attributes

Reading the attributes of a tag. An attribute is a key, an equals sign and a value between two
quotation marks of one kind; spaces may stand around each of them, and none has to stand between two
attributes. A key is any byte that is no space, and then anything without spaces and equals signs.
No key may occur twice.

A tag is read from left to right and the first fault counts: of an attribute first its form is
judged, then the encoding of its key, then the encoding and the references of its value.
-/

set_option autoImplicit false

namespace PetriQuery.Markup

/-- An attribute as it is written, and where its key starts. -/
structure RawAttribute where
  start : Nat
  key : List UInt8
  value : List UInt8

/-- The value at the start of the input, which lies `position` bytes into a tag of `size` bytes, and
what follows it. -/
def rawValue (size position : Nat) (input : List UInt8) :
    Except AttributeFault (List UInt8 × List UInt8) :=
  let spaces := input.takeWhile isSpace
  match input.dropWhile isSpace with
  | [] => .error (.expectedValue size)
  | quote :: rest =>
    if quote = byteQuote ∨ quote = byteApostrophe then
      match rest.dropWhile fun b => b ≠ quote with
      | [] => .error (.expectedQuote size (Char.ofNat quote.toNat))
      | _ :: rest' => .ok (rest.takeWhile fun b => b ≠ quote, rest')
    else .error (.unquotedValue (position + spaces.length))

/-- Whether a byte after the first one belongs to a key. -/
def inKey (b : UInt8) : Bool := b ≠ byteEquals && !isSpace b

/-- The next attribute of a tag of `size` bytes, if one follows, and the input after it. The input
lies `position` bytes into the tag, and `earlier` are the attributes before. -/
def nextRaw (size position : Nat) (earlier : List RawAttribute) (input : List UInt8) :
    Except AttributeFault (Option (RawAttribute × List UInt8)) :=
  match input.dropWhile isSpace with
  | [] => .ok none
  | first :: body =>
    let start := position + (input.takeWhile isSpace).length
    let key := first :: body.takeWhile inKey
    let afterKey := body.dropWhile inKey
    let sign := start + key.length + (afterKey.takeWhile isSpace).length
    match afterKey.dropWhile isSpace with
    | byteEquals :: rest =>
      -- A key that occurs twice is refused before its value is looked at.
      match earlier.find? fun other => other.key = key with
      | some other => .error (.duplicated start other.start)
      | none =>
        match rawValue size (sign + 1) rest with
        | .error fault => .error fault
        | .ok (value, rest) => .ok (some (⟨start, key, value⟩, rest))
    | _ => .error (.expectedEquals sign)

/-- The key and the value that an attribute stands for. -/
def RawAttribute.decode (raw : RawAttribute) : Except Fault (String × String) := do
  let key ← (Text.Utf8.decode raw.key).mapError .nameEncoding
  let text ← (Text.Utf8.decode raw.value).mapError .textEncoding
  let value ← (unescape text).mapError .badReference
  return (key, value)

/-- Skipping bytes leaves no more than there were. -/
theorem length_dropWhile_le {α : Type} (p : α → Bool) (bytes : List α) :
    (bytes.dropWhile p).length ≤ bytes.length :=
  (List.dropWhile_sublist p).length_le

/-- What follows a value is shorter than the input. -/
theorem length_of_rawValue {size position : Nat} {input value rest : List UInt8}
    (h : rawValue size position input = .ok (value, rest)) : rest.length < input.length := by
  have skipped := length_dropWhile_le isSpace input
  simp only [rawValue] at h
  split at h
  · cases h
  · next quote body found =>
    rw [found, List.length_cons] at skipped
    split at h
    · have inner := length_dropWhile_le (fun b => b ≠ quote) body
      split at h
      · cases h
      · next last rest' closing =>
        obtain ⟨-, rfl⟩ := Prod.mk.inj (Except.ok.inj h)
        rw [closing, List.length_cons] at inner
        omega
    · cases h

/-- What follows an attribute is shorter than the input. -/
theorem length_of_nextRaw {size position : Nat} {earlier : List RawAttribute}
    {input rest : List UInt8} {raw : RawAttribute}
    (h : nextRaw size position earlier input = .ok (some (raw, rest))) :
    rest.length < input.length := by
  have skipped := length_dropWhile_le isSpace input
  simp only [nextRaw] at h
  split at h
  · cases h
  · next first body found =>
    rw [found, List.length_cons] at skipped
    have afterKey := length_dropWhile_le inKey body
    have gap := length_dropWhile_le isSpace (body.dropWhile inKey)
    split at h
    · next value signed =>
      rw [signed, List.length_cons] at gap
      split at h
      · cases h
      · split at h
        · cases h
        · next read =>
          have inner := length_of_rawValue read
          obtain ⟨-, rfl⟩ := Prod.mk.inj (Option.some.inj (Except.ok.inj h))
          omega
    · cases h

/-- The attributes in the rest of a tag of `size` bytes. Those read so far are in `earlier`, as they
are written, and in `done`, as they are read, the last one first. -/
def attributesFrom (size : Nat) (earlier : List RawAttribute) (done : List (String × String))
    (input : List UInt8) : Except Fault (List (String × String)) :=
  -- What is left of the tag tells how far into it the input lies.
  match _read : nextRaw size (size - input.length) earlier input with
  | .error fault => .error (.badAttribute fault)
  | .ok none => .ok done.reverse
  | .ok (some (raw, rest)) =>
    match raw.decode with
    | .error fault => .error fault
    | .ok pair => attributesFrom size (raw :: earlier) (pair :: done) rest
termination_by input.length
decreasing_by exact length_of_nextRaw _read

/-- The name of a tag: what stands before the first space. -/
def tagName (content : List UInt8) : List UInt8 := content.takeWhile fun b => !isSpace b

/-- The name and the attributes of a tag. -/
def readTag (content : List UInt8) : Except Fault (String × List (String × String)) := do
  let name ← (Text.Utf8.decode (tagName content)).mapError .nameEncoding
  let attributes ←
    attributesFrom content.length [] [] (content.dropWhile fun b => !isSpace b)
  return (name, attributes)

end PetriQuery.Markup
