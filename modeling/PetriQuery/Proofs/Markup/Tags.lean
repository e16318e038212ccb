import PetriQuery.Markup.Attribute
import PetriQuery.Proofs.Markup.Encoding
import PetriQuery.Proofs.Markup.Escaping
import Mathlib.Data.List.Nodup

/-!
# Writing tags

A tag is written as its name and its attributes, each behind a space and with its value in double
quotes. What the values hold is escaped, so that no value ends before its quotation mark, and names
are words, so that no name ends before the character behind it. Reading such a tag gives the name
and the attributes in the order in which they are written (`readTag_tagChars`).
-/

set_option autoImplicit false

namespace PetriQuery.Markup

open Text (IsWord isLetter isWordChar)

/-! ## What is written -/

/-- An attribute and the space before it. -/
def attributeChars (entry : String × String) : List Char :=
  ' ' :: (entry.1.toList ++ '=' :: '"' :: (escape entry.2.toList ++ ['"']))

/-- What stands between the `<` and the `>` of a start tag. -/
def tagChars (name : String) (entries : List (String × String)) : List Char :=
  name.toList ++ entries.flatMap attributeChars

/-- The attributes can be written into one tag: their keys are words and no two are the same. -/
structure AreAttributes (entries : List (String × String)) : Prop where
  words : ∀ entry ∈ entries, IsWord isLetter entry.1.toList
  distinct : (entries.map Prod.fst).Nodup

/-- An attribute as bytes. -/
theorem bytesOf_attributeChars (entry : String × String) :
    bytesOf (attributeChars entry)
      = 0x20 :: (bytesOf entry.1.toList
        ++ byteEquals :: byteQuote :: (bytesOf (escape entry.2.toList) ++ [byteQuote])) := by
  rw [attributeChars, bytesOf_cons, bytesOf_append, bytesOf_cons, bytesOf_cons, bytesOf_append]
  rfl

/-- The bytes of a word may stand in names. -/
theorem isNameByte_of_isWord {cs : List Char} (word : IsWord isLetter cs) :
    ∀ b ∈ bytesOf cs, isNameByte b = true :=
  isNameByte_of_mem_bytesOf (word.isWordChar fun _ letter => Text.isWordChar_of_isLetter letter)

/-- Nothing that markup is made of is left in the bytes of a text. -/
theorem notMem_bytesOf_escape {c : Char} (markup : c ∈ ['<', '>', '"']) (cs : List Char) :
    UInt8.ofNat c.toNat ∉ bytesOf (escape cs) := by
  apply notMem_bytesOf
  · simp only [List.mem_cons, List.not_mem_nil, or_false] at markup
    rcases markup with rfl | rfl | rfl <;> decide
  · exact not_mem_escape markup cs

/-- A word has a first byte. -/
theorem exists_bytesOf_eq_cons {cs : List Char} (word : IsWord isLetter cs) :
    ∃ b rest, bytesOf cs = b :: rest ∧ isNameByte b = true
      ∧ ∀ c ∈ rest, isNameByte c = true := by
  have named := isNameByte_of_isWord word
  cases bytes : bytesOf cs with
  | nil => exact absurd (bytesOf_inj (bytes.trans rfl : bytesOf cs = bytesOf [])) word.ne_nil
  | cons b rest =>
    rw [bytes] at named
    obtain ⟨first, later⟩ := List.forall_mem_cons.1 named
    exact ⟨b, rest, rfl, first, later⟩

/-- No byte of a name is a space. -/
theorem isSpace_of_isNameByte {b : UInt8} (named : isNameByte b = true) : isSpace b = false := by
  rw [isNameByte, Bool.and_eq_true, Bool.not_eq_true'] at named
  exact named.1

/-- No byte of a name is one that markup is made of. -/
theorem notMem_of_isNameByte {b : UInt8} (named : isNameByte b = true) :
    b ∉ [byteLess, byteGreater, byteBang, byteQuestion, byteSlash, byteEquals, byteQuote,
      byteApostrophe] := by
  rw [isNameByte, Bool.and_eq_true, decide_eq_true_eq] at named
  exact named.2

/-! ## Reading attributes -/

/-- Bytes of a kind are split off in front of a byte that is not of the kind. -/
theorem split_append {p : UInt8 → Bool} {front rest : List UInt8}
    (inner : ∀ b ∈ front, p b = true) (last : ∀ b ∈ rest.head?, p b = false) :
    (front ++ rest).takeWhile p = front ∧ (front ++ rest).dropWhile p = rest := by
  have split := Numeral.span_append inner last
  rwa [List.span_eq_takeWhile_dropWhile, Prod.mk.injEq] at split

/-- A byte that does not occur differs from all that do. -/
theorem ne_of_notMem {b : UInt8} {bytes : List UInt8} (absent : b ∉ bytes) :
    ∀ c ∈ bytes, decide (c ≠ b) = true := by
  intro c member
  rw [decide_eq_true_eq]
  rintro rfl
  exact absent member

/-- A value ends at the next quotation mark. -/
theorem rawValue_quoted {size position : Nat} {value rest : List UInt8}
    (plain : byteQuote ∉ value) :
    rawValue size position (byteQuote :: (value ++ byteQuote :: rest)) = .ok (value, rest) := by
  have last : ∀ b ∈ (byteQuote :: rest).head?, decide (b ≠ byteQuote) = false := by
    intro b first
    obtain rfl := Option.some.inj first
    rfl
  obtain ⟨front, behind⟩ := split_append (ne_of_notMem plain) last
  have spaces : (byteQuote :: (value ++ byteQuote :: rest)).dropWhile isSpace
      = byteQuote :: (value ++ byteQuote :: rest) := rfl
  simp only [rawValue, spaces, true_or, if_true, front, behind]

/-- What may stand in a name may stand in a key. -/
theorem inKey_of_isNameByte {b : UInt8} (named : isNameByte b = true) : inKey b = true := by
  have markup := notMem_of_isNameByte named
  rw [inKey, isSpace_of_isNameByte named, Bool.and_eq_true, decide_eq_true_eq]
  refine ⟨?_, rfl⟩
  rintro rfl
  exact markup (by decide)

/-- An attribute with a new key is read up to its second quotation mark. -/
theorem nextRaw_attribute {size position : Nat} {earlier : List RawAttribute}
    {key value rest : List UInt8} (first : key ≠ []) (named : ∀ b ∈ key, isNameByte b = true)
    (plain : byteQuote ∉ value) (fresh : ∀ other ∈ earlier, other.key ≠ key) :
    nextRaw size position earlier
        (0x20 :: (key ++ byteEquals :: byteQuote :: (value ++ byteQuote :: rest)))
      = .ok (some (⟨position + 1, key, value⟩, rest)) := by
  cases key with
  | nil => exact absurd rfl first
  | cons b key =>
    obtain ⟨head, tail⟩ := List.forall_mem_cons.1 named
    have inner : ∀ c ∈ key, inKey c = true := fun c member => inKey_of_isNameByte (tail c member)
    have last : ∀ c ∈ (byteEquals :: byteQuote :: (value ++ byteQuote :: rest)).head?,
        inKey c = false := by
      intro c first
      obtain rfl := Option.some.inj first
      rfl
    -- The key is what stands between the one space before it and the equals sign.
    obtain ⟨inFront, afterKey⟩ := split_append inner last
    have noSpace : ¬ isSpace b = true := by
      rw [isSpace_of_isNameByte head]
      exact Bool.false_ne_true
    have behind : (0x20 :: (b :: (key ++ byteEquals :: byteQuote :: (value ++ byteQuote :: rest)))
        ).dropWhile isSpace
          = b :: (key ++ byteEquals :: byteQuote :: (value ++ byteQuote :: rest)) := by
      rw [List.dropWhile_cons_of_pos (by rfl), List.dropWhile_cons_of_neg noSpace]
    have spaces : (0x20 :: (b :: (key ++ byteEquals :: byteQuote :: (value ++ byteQuote :: rest)))
        ).takeWhile isSpace = [0x20] := by
      rw [List.takeWhile_cons_of_pos (by rfl), List.takeWhile_cons_of_neg noSpace]
    have new : (earlier.find? fun other => other.key = b :: key) = none := by
      rw [List.find?_eq_none]
      intro other member same
      exact fresh other member (of_decide_eq_true same)
    have equals : (byteEquals :: byteQuote :: (value ++ byteQuote :: rest)).dropWhile isSpace
        = byteEquals :: byteQuote :: (value ++ byteQuote :: rest) := rfl
    simp only [nextRaw, List.cons_append, behind, spaces, inFront, afterKey, equals, new]
    split
    · next quoted found =>
      obtain rfl := (List.cons.inj found).2
      rw [rawValue_quoted plain]
      rfl
    · next other =>
      exact absurd rfl (other _)

/-- What is written for an attribute is read as that attribute. -/
theorem decode_written (start : Nat) (entry : String × String) :
    RawAttribute.decode ⟨start, bytesOf entry.1.toList, bytesOf (escape entry.2.toList)⟩
      = .ok entry := by
  simp only [RawAttribute.decode, decode_bytesOf, String.ofList_toList, Except.mapError, bind,
    Except.bind, unescape_escape]
  rfl

/-- The attributes of a tag are read in the order in which they are written, if their keys are new.
The induction is on those that are left, and every step adds a key to those that are known. -/
theorem attributesFrom_written {size : Nat} {earlier : List RawAttribute}
    {done entries : List (String × String)} (attributes : AreAttributes entries)
    (fresh : ∀ entry ∈ entries, ∀ other ∈ earlier, other.key ≠ bytesOf entry.1.toList) :
    attributesFrom size earlier done (bytesOf (entries.flatMap attributeChars))
      = .ok (done.reverse ++ entries) := by
  induction entries generalizing earlier done with
  | nil =>
    rw [attributesFrom, List.append_nil]
    rfl
  | cons entry entries ih =>
    obtain ⟨word, words⟩ := List.forall_mem_cons.1 attributes.words
    obtain ⟨new, distinct⟩ := List.nodup_cons.1 attributes.distinct
    have first : bytesOf entry.1.toList ≠ [] := by
      obtain ⟨b, rest, bytes, -⟩ := exists_bytesOf_eq_cons word
      rw [bytes]
      exact List.cons_ne_nil b rest
    have plain : byteQuote ∉ bytesOf (escape entry.2.toList) :=
      notMem_bytesOf_escape (c := '"') (by decide) entry.2.toList
    have bytes : bytesOf ((entry :: entries).flatMap attributeChars)
        = 0x20 :: (bytesOf entry.1.toList ++ byteEquals :: byteQuote
          :: (bytesOf (escape entry.2.toList) ++ byteQuote
            :: bytesOf (entries.flatMap attributeChars))) := by
      rw [List.flatMap_cons, bytesOf_append, bytesOf_attributeChars]
      simp only [List.cons_append, List.append_assoc, List.nil_append]
    -- No key that is left is the one that is read now or one of those before it.
    have fresh' : ∀ start, ∀ later ∈ entries, ∀ other ∈ RawAttribute.mk start
        (bytesOf entry.1.toList) (bytesOf (escape entry.2.toList)) :: earlier,
        other.key ≠ bytesOf later.1.toList := by
      intro start later member other known
      rcases List.mem_cons.1 known with rfl | known
      · intro same
        have keys : entry.1 = later.1 := String.toList_inj.1 (bytesOf_inj same)
        exact new (keys ▸ List.mem_map_of_mem member)
      · exact fresh later (List.mem_cons_of_mem _ member) other known
    rw [bytes, attributesFrom]
    have read := fun position => @nextRaw_attribute size position earlier _ _
      (bytesOf (entries.flatMap attributeChars)) first (isNameByte_of_isWord word) plain
      (fresh entry List.mem_cons_self)
    -- The reader finds an attribute, so that it neither fails nor stops here.
    split
    · next fault found =>
      rw [read] at found
      cases found
    · next found =>
      rw [read] at found
      cases found
    · next raw rest found =>
      rw [read] at found
      obtain ⟨rfl, rfl⟩ := Prod.mk.inj (Option.some.inj (Except.ok.inj found))
      rw [decode_written]
      simp only []
      rw [ih ⟨words, distinct⟩ (fresh' _), List.reverse_cons, List.append_assoc,
        List.singleton_append]

/-- **What is written for a tag is read as its name and its attributes.** -/
theorem readTag_tagChars {name : String} {entries : List (String × String)}
    (word : IsWord isLetter name.toList) (attributes : AreAttributes entries) :
    tagName (bytesOf (tagChars name entries)) = bytesOf name.toList
      ∧ readTag (bytesOf (tagChars name entries)) = .ok (name, entries) := by
  have inner : ∀ b ∈ bytesOf name.toList, (!isSpace b) = true := by
    intro b member
    rw [isSpace_of_isNameByte (isNameByte_of_isWord word b member)]
    rfl
  have last : ∀ b ∈ (bytesOf (entries.flatMap attributeChars)).head?, (!isSpace b) = false := by
    intro b first
    cases entries with
    | nil => cases first
    | cons entry entries =>
      rw [List.flatMap_cons, bytesOf_append, bytesOf_attributeChars] at first
      obtain rfl := Option.some.inj first
      rfl
  obtain ⟨front, behind⟩ := split_append inner last
  have named : tagName (bytesOf (tagChars name entries)) = bytesOf name.toList := by
    rw [tagName, tagChars, bytesOf_append, front]
  refine ⟨named, ?_⟩
  have read := @attributesFrom_written (bytesOf (tagChars name entries)).length [] [] entries
    attributes (fun _ _ _ => nofun)
  simp only [readTag, named, decode_bytesOf, String.ofList_toList, Except.mapError, bind,
    Except.bind]
  rw [tagChars, bytesOf_append, behind, ← bytesOf_append, ← tagChars, read]
  rfl

end PetriQuery.Markup
