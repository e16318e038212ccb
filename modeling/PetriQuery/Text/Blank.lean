/-!
# Blank characters

The characters with the Unicode property `White_Space`, and the two ways of removing them from a
text: `trim` removes the blanks at both ends and keeps those between, `strip` removes every blank.

Main facts: a text without blanks is left alone by both (`trimmed_eq_self`, `strip_eq_self`), and
what `strip` returns holds no blank (`not_isBlank_of_mem_strip`).
-/

set_option autoImplicit false

namespace PetriQuery.Text

/-- The code points with the property `White_Space`, as closed ranges in increasing order. -/
def blankRanges : List (Nat × Nat) :=
  [(0x09, 0x0d), (0x20, 0x20), (0x85, 0x85), (0xa0, 0xa0), (0x1680, 0x1680), (0x2000, 0x200a),
    (0x2028, 0x2029), (0x202f, 0x202f), (0x205f, 0x205f), (0x3000, 0x3000)]

/-- Whether a character is blank. -/
def isBlank (c : Char) : Bool :=
  blankRanges.any fun range => range.1 ≤ c.toNat && c.toNat ≤ range.2

/-- The characters of a text without the blanks at either end. -/
def trimmed (cs : List Char) : List Char :=
  ((cs.dropWhile isBlank).reverse.dropWhile isBlank).reverse

/-- A text without the blanks at either end. -/
def trim (s : String) : String := String.ofList (trimmed s.toList)

/-- A text without any of its blanks. -/
def strip (s : String) : String := String.ofList (s.toList.filter fun c => !isBlank c)

/-- Whether a text holds nothing but blanks. -/
def isAllBlank (s : String) : Bool := s.toList.all isBlank

/-- The text that `strip` returns holds no blank. -/
theorem not_isBlank_of_mem_strip {s : String} {c : Char} (h : c ∈ (strip s).toList) :
    isBlank c = false := by
  simp only [strip, String.toList_ofList, List.mem_filter] at h
  simpa using h.2

/-- A text without blanks is its own stripped form. -/
theorem strip_eq_self {s : String} (h : ∀ c ∈ s.toList, isBlank c = false) : strip s = s := by
  unfold strip
  rw [List.filter_eq_self.2 fun c hc => by simp [h c hc], String.ofList_toList]

/-- A list whose head is not blank loses nothing at the front. -/
theorem dropWhile_isBlank_of_head {c : Char} {cs : List Char} (h : isBlank c = false) :
    (c :: cs).dropWhile isBlank = c :: cs := by
  simp [h]

/-- A text without blanks is its own trimmed form. -/
theorem trimmed_eq_self {cs : List Char} (h : ∀ c ∈ cs, isBlank c = false) : trimmed cs = cs := by
  have keep : ∀ xs : List Char, (∀ c ∈ xs, isBlank c = false) → xs.dropWhile isBlank = xs := by
    intro xs hxs
    cases xs with
    | nil => rfl
    | cons x xs => exact dropWhile_isBlank_of_head (hxs x List.mem_cons_self)
  rw [trimmed, keep cs h, keep cs.reverse fun c hc => h c (List.mem_reverse.1 hc),
    List.reverse_reverse]

end PetriQuery.Text
