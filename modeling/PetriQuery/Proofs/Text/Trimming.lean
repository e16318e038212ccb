import PetriQuery.Text.Blank
import Mathlib.Data.List.DropRight

/-!
# Texts without blanks at their ends

What `trim` and `strip` leave of a text. Nothing is left iff the text is blank, and what `trim`
leaves begins and ends with characters that are not blank (`isTrimmed_trim`). Blanks around a text
make no difference to `trim` (`trim_padded`), every text is its trimmed form with blanks around it
(`exists_padding`), and blanks anywhere in a text make no difference to `strip` (`strip_insert`).
-/

set_option autoImplicit false

namespace PetriQuery.Text

/-- The text begins and ends with characters that are not blank, unless it is empty. -/
def IsTrimmed (s : String) : Prop :=
  (∀ c ∈ s.toList.head?, isBlank c = false) ∧ ∀ c ∈ s.toList.getLast?, isBlank c = false

instance (s : String) : Decidable (IsTrimmed s) := inferInstanceAs (Decidable (_ ∧ _))

/-- A text is blank iff all its characters are. -/
theorem isAllBlank_iff {s : String} : isAllBlank s = true ↔ ∀ c ∈ s.toList, isBlank c = true :=
  List.all_eq_true

/-- Nothing is left of the characters of a text iff they are blank. -/
theorem trimmed_eq_nil_iff {cs : List Char} : trimmed cs = [] ↔ ∀ c ∈ cs, isBlank c = true := by
  change (cs.dropWhile isBlank).rdropWhile isBlank = [] ↔ _
  rw [List.rdropWhile_eq_nil_iff, ← List.dropWhile_eq_nil_iff (p := isBlank),
    ← List.dropWhile_eq_nil_iff (p := isBlank), List.dropWhile_idempotent]

/-- Nothing is left of a text by `trim` iff the text is blank. -/
theorem trim_eq_empty_iff {s : String} : trim s = "" ↔ isAllBlank s = true := by
  rw [trim, ← String.ofList_nil, String.ofList_inj, trimmed_eq_nil_iff, isAllBlank_iff]

/-- Nothing is left of a text by `strip` iff the text is blank. -/
theorem strip_eq_empty_iff {s : String} : strip s = "" ↔ isAllBlank s = true := by
  rw [strip, ← String.ofList_nil, String.ofList_inj, List.filter_eq_nil_iff, isAllBlank_iff]
  simp

/-- What `strip` leaves of a text are its characters that are not blank. -/
theorem strip_eq_iff {s t : String} :
    strip s = t ↔ t.toList = s.toList.filter fun c => !isBlank c := by
  rw [← String.toList_inj, strip, String.toList_ofList, eq_comm]

/-- What is left behind the blanks at the front of a text begins with no blank. -/
theorem not_isBlank_of_head?_dropWhile {cs : List Char} {c : Char}
    (h : (cs.dropWhile isBlank).head? = some c) : isBlank c = false := by
  induction cs with
  | nil => cases h
  | cons first rest ih =>
    rw [List.dropWhile_cons] at h
    split at h
    · exact ih h
    · next other =>
      obtain rfl : first = c := Option.some.inj h
      exact Bool.eq_false_iff.2 other

/-- What `trim` leaves is trimmed. -/
theorem isTrimmed_trim (s : String) : IsTrimmed (trim s) := by
  rw [IsTrimmed, trim, String.toList_ofList]
  constructor
  · intro c first
    -- Dropping blanks at the end drops no character at the front, unless it drops all of them.
    have front : (trimmed s.toList) <+: s.toList.dropWhile isBlank :=
      List.rdropWhile_prefix isBlank _
    obtain ⟨rest, split⟩ := front
    have first' : (s.toList.dropWhile isBlank).head? = some c := by
      rw [← split, List.head?_append, first]
      rfl
    exact not_isBlank_of_head?_dropWhile first'
  · intro c last
    rw [trimmed, List.getLast?_reverse] at last
    exact not_isBlank_of_head?_dropWhile last

/-- Characters that begin with no blank lose nothing at the front. -/
theorem dropWhile_eq_self {cs : List Char} (h : ∀ c ∈ cs.head?, isBlank c = false) :
    cs.dropWhile isBlank = cs := by
  cases cs with
  | nil => rfl
  | cons c rest => exact dropWhile_isBlank_of_head (h c rfl)

/-- A trimmed text is its own trimmed form. -/
theorem trim_eq_self {s : String} (h : IsTrimmed s) : trim s = s := by
  have back : ∀ c ∈ s.toList.reverse.head?, isBlank c = false := by
    rw [List.head?_reverse]
    exact h.2
  rw [trim, trimmed, dropWhile_eq_self h.1, dropWhile_eq_self back, List.reverse_reverse,
    String.ofList_toList]

@[simp] theorem trim_trim (s : String) : trim (trim s) = trim s := trim_eq_self (isTrimmed_trim s)

@[simp] theorem strip_strip (s : String) : strip (strip s) = strip s :=
  strip_eq_self fun _ member => not_isBlank_of_mem_strip member

/-- Blanks around a text are trimmed. -/
theorem trim_padded {before after : String} (blank : isAllBlank before = true)
    (blank' : isAllBlank after = true) (s : String) : trim (before ++ s ++ after) = trim s := by
  rw [isAllBlank_iff] at blank blank'
  rw [trim, trim, String.ofList_inj, String.toList_append, String.toList_append, List.append_assoc,
    trimmed, trimmed, List.dropWhile_append_of_pos blank, List.dropWhile_append]
  split
  · next none =>
    -- The text is blank itself, so what is behind it is dropped from the front.
    rw [List.isEmpty_iff.1 none, List.dropWhile_eq_nil_iff.2 blank']
  · rw [List.reverse_append, List.dropWhile_append_of_pos]
    intro c member
    exact blank' c (List.mem_reverse.1 member)

/-- A text is what `trim` leaves of it, with blanks in front of that and behind it. -/
theorem exists_padding (s : String) :
    ∃ before after, isAllBlank before = true ∧ isAllBlank after = true
      ∧ s = before ++ trim s ++ after := by
  let back := s.toList.dropWhile isBlank
  refine ⟨.ofList (s.toList.takeWhile isBlank), .ofList (back.rtakeWhile isBlank), ?_, ?_, ?_⟩
  · rw [isAllBlank_iff, String.toList_ofList]
    exact fun c member => List.mem_takeWhile_imp member
  · rw [isAllBlank_iff, String.toList_ofList]
    exact fun c member => List.mem_rtakeWhile_imp member
  · change s = _ ++ String.ofList (back.rdropWhile isBlank) ++ _
    rw [← String.ofList_append, ← String.ofList_append, List.append_assoc,
      List.rdropWhile_append_rtakeWhile, List.takeWhile_append_dropWhile, String.ofList_toList]

/-- Blanks inside a text are stripped. -/
theorem strip_insert {blanks : String} (blank : isAllBlank blanks = true) (front back : String) :
    strip (front ++ blanks ++ back) = strip (front ++ back) := by
  have none : blanks.toList.filter (fun c => !isBlank c) = [] := by
    rw [List.filter_eq_nil_iff]
    intro c member
    simp [isAllBlank_iff.1 blank c member]
  simp only [strip, String.toList_append, List.filter_append, none, List.append_nil]

end PetriQuery.Text
