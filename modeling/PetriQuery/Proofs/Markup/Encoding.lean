import PetriQuery.Markup.Bytes
import PetriQuery.Proofs.Text.Word
import PetriQuery.Text.Utf8
import Mathlib.Tactic.SplitIfs

/-!
# Characters as bytes

The bytes of a text are those of its characters. An ASCII character is one byte and no other
character has a byte of that range, so what is said of the ASCII characters of a text can be said of
its bytes (`forall_bytesOf`). In a word no byte is one that markup is made of (`isNameByte`).
-/

set_option autoImplicit false

namespace PetriQuery.Markup

open Text (isLetter isWordChar)

/-- The bytes of characters. -/
def bytesOf (cs : List Char) : List UInt8 := cs.flatMap String.utf8EncodeChar

theorem bytesOf_append (cs ds : List Char) : bytesOf (cs ++ ds) = bytesOf cs ++ bytesOf ds :=
  List.flatMap_append

theorem bytesOf_cons (c : Char) (cs : List Char) :
    bytesOf (c :: cs) = String.utf8EncodeChar c ++ bytesOf cs := List.flatMap_cons

/-- The bytes of the characters of a text are those of the text. -/
theorem decode_bytesOf (cs : List Char) :
    Text.Utf8.decode (bytesOf cs) = .ok (String.ofList cs) := by
  have read := Text.Utf8.decode_encode (String.ofList cs)
  rwa [Text.Utf8.encode, String.toList_ofList] at read

/-- Different characters have different bytes. -/
theorem bytesOf_inj {cs ds : List Char} (same : bytesOf cs = bytesOf ds) : cs = ds := by
  have read := decode_bytesOf cs
  rw [same, decode_bytesOf ds] at read
  exact (String.ofList_inj.1 (Except.ok.inj read)).symm

/-- An ASCII character is one byte. -/
theorem utf8EncodeChar_of_lt {c : Char} (low : c.toNat < 128) :
    String.utf8EncodeChar c = [UInt8.ofNat c.toNat] := by
  have low' : c.val.toNat ≤ 127 := Nat.le_of_lt_succ low
  rw [String.utf8EncodeChar]
  simp only [if_pos low']
  rfl

/-- The bytes of other characters are out of the range of ASCII. -/
theorem le_of_mem_utf8EncodeChar {c : Char} (high : 128 ≤ c.toNat) {b : UInt8}
    (member : b ∈ String.utf8EncodeChar c) : 128 ≤ b.toNat := by
  have high' : ¬ c.val.toNat ≤ 127 := Nat.not_le_of_lt high
  -- Every byte of a sequence is made from a number in the upper half of the bytes.
  have upperHalf : ∀ {n : Nat}, 128 ≤ n → n < 256 → 128 ≤ (UInt8.ofNat n).toNat := by
    intro n low small
    rwa [Text.Utf8.toNat_byte small]
  rw [String.utf8EncodeChar] at member
  simp only [if_neg high'] at member
  split_ifs at member
  all_goals
    simp only [List.mem_cons, List.not_mem_nil, or_false] at member
    rcases member with rfl | rfl | rfl | rfl <;> exact upperHalf (by omega) (by omega)

/-- What holds of the ASCII characters and of everything beyond ASCII holds of all bytes. -/
theorem forall_bytesOf {P : UInt8 → Prop} {cs : List Char}
    (high : ∀ b : UInt8, 128 ≤ b.toNat → P b)
    (low : ∀ c ∈ cs, c.toNat < 128 → P (UInt8.ofNat c.toNat)) : ∀ b ∈ bytesOf cs, P b := by
  intro b member
  obtain ⟨c, ofText, written⟩ := List.mem_flatMap.1 member
  by_cases ascii : c.toNat < 128
  · rw [utf8EncodeChar_of_lt ascii] at written
    rw [List.mem_singleton.1 written]
    exact low c ofText ascii
  · exact high b (le_of_mem_utf8EncodeChar (Nat.le_of_not_lt ascii) written)

/-- The byte of an ASCII character occurs only where the character does. -/
theorem notMem_bytesOf {c : Char} (ascii : c.toNat < 128) {cs : List Char} (absent : c ∉ cs) :
    UInt8.ofNat c.toNat ∉ bytesOf cs := by
  intro member
  obtain ⟨d, ofText, written⟩ := List.mem_flatMap.1 member
  by_cases low : d.toNat < 128
  · rw [utf8EncodeChar_of_lt low] at written
    have same := congrArg UInt8.toNat (List.mem_singleton.1 written)
    rw [Text.Utf8.toNat_byte (by omega), Text.Utf8.toNat_byte (by omega)] at same
    exact absent (Char.toNat_inj.1 same ▸ ofText)
  · have beyond := le_of_mem_utf8EncodeChar (Nat.le_of_not_lt low) written
    rw [Text.Utf8.toNat_byte (by omega)] at beyond
    omega

/-! ## Names -/

/-- Whether a byte may stand in a name: it is no space and nothing that markup is made of. -/
def isNameByte (b : UInt8) : Bool :=
  !isSpace b && b ∉ [byteLess, byteGreater, byteBang, byteQuestion, byteSlash, byteEquals,
    byteQuote, byteApostrophe]

/-- The bytes of words may stand in names. -/
theorem isNameByte_of_mem_bytesOf {cs : List Char} (word : ∀ c ∈ cs, isWordChar c = true) :
    ∀ b ∈ bytesOf cs, isNameByte b = true := by
  apply forall_bytesOf
  · intro b beyond
    have all : ∀ n < 256, 128 ≤ n → isNameByte (UInt8.ofNat n) = true := by decide +kernel
    have named := all b.toNat b.toNat_lt beyond
    rwa [UInt8.ofNat_toNat] at named
  · intro c member ascii
    have all : ∀ n < 128, isWordChar (Char.ofNat n) = true →
        isNameByte (UInt8.ofNat n) = true := by
      decide +kernel
    refine all c.toNat ascii ?_
    rw [Char.ofNat_toNat]
    exact word c member

end PetriQuery.Markup
