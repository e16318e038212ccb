import PetriQuery.Markup.Entity
import Mathlib.Tactic.SplitIfs

/-!
# Escaping

Writing a text into markup. The characters that markup is made of are replaced by references to
them, and reading replaces the references again (`unescape_escape`).
-/

set_option autoImplicit false

namespace PetriQuery.Markup

/-- The name of the reference that a character is replaced by, if it is replaced. -/
def entityName? (c : Char) : Option (List Char) :=
  if c = '&' then some "amp".toList
  else if c = '<' then some "lt".toList
  else if c = '>' then some "gt".toList
  else if c = '"' then some "quot".toList
  else none

/-- A character as it is written into a text or a value. -/
def escapeChar (c : Char) : List Char :=
  match entityName? c with
  | some name => '&' :: (name ++ [';'])
  | none => [c]

/-- A text as it is written. -/
def escape (cs : List Char) : List Char := cs.flatMap escapeChar

theorem escape_append (cs ds : List Char) : escape (cs ++ ds) = escape cs ++ escape ds :=
  List.flatMap_append

/-- The names are names of references, to the characters that they replace. -/
theorem of_entityName? {c : Char} {name : List Char} (h : entityName? c = some name) :
    (∀ d ∈ name, d.isAlpha = true) ∧ (∀ d ∈ name, (!endsReference d) = true)
      ∧ ∀ first, entity first name = .ok c := by
  rw [entityName?] at h
  split_ifs at h with amp less greater quote
  all_goals
    obtain rfl := Option.some.inj h
    subst c
    exact ⟨List.all_eq_true.1 (by decide), List.all_eq_true.1 (by decide), fun _ => rfl⟩

/-- The characters of markup are replaced. -/
theorem exists_entityName? {c : Char} (markup : c ∈ ['<', '>', '"']) :
    ∃ name, entityName? c = some name := by
  have all : ∀ c ∈ ['<', '>', '"'], (entityName? c).isSome = true :=
    List.all_eq_true.1 (by decide)
  exact Option.isSome_iff_exists.1 (all c markup)

/-- Nothing that markup is made of is left in a text. -/
theorem not_mem_escape {c : Char} (markup : c ∈ ['<', '>', '"']) (cs : List Char) :
    c ∉ escape cs := by
  intro member
  obtain ⟨d, -, written⟩ := List.mem_flatMap.1 member
  obtain ⟨notAmp, notEnd, notAlpha⟩ : c ≠ '&' ∧ c ≠ ';' ∧ c.isAlpha = false := by
    simp only [List.mem_cons, List.not_mem_nil, or_false] at markup
    rcases markup with rfl | rfl | rfl <;> decide
  rw [escapeChar] at written
  split at written
  · next name named =>
    rcases List.mem_cons.1 written with rfl | written
    · exact notAmp rfl
    · rcases List.mem_append.1 written with inside | last
      · rw [(of_entityName? named).1 c inside] at notAlpha
        cases notAlpha
      · exact notEnd (List.mem_singleton.1 last)
  · next unnamed =>
    obtain rfl := List.mem_singleton.1 written
    obtain ⟨name, named⟩ := exists_entityName? markup
    rw [unnamed] at named
    cases named

/-- Something is written for every text but the empty one. -/
theorem escape_eq_nil_iff {cs : List Char} : escape cs = [] ↔ cs = [] := by
  constructor
  · intro empty
    cases cs with
    | nil => rfl
    | cons c rest =>
      rw [escape, List.flatMap_cons] at empty
      have nothing := (List.append_eq_nil_iff.1 empty).1
      rw [escapeChar] at nothing
      split at nothing <;> cases nothing
  · rintro rfl
    rfl

/-- A reference is replaced by the character it stands for. -/
theorem unescapeFrom_reference {size position : Nat} {done name rest : List Char} {c : Char}
    (plain : ∀ d ∈ name, (!endsReference d) = true) (stands : entity (position + 1) name = .ok c) :
    unescapeFrom size position done ('&' :: (name ++ ';' :: rest))
      = unescapeFrom size (position + byteCount name + 2) (c :: done) rest := by
  have front : (name ++ ';' :: rest).takeWhile (fun c => !endsReference c) = name := by
    rw [List.takeWhile_append_of_pos plain]
    simp [endsReference]
  have behind : (name ++ ';' :: rest).dropWhile (fun c => !endsReference c) = ';' :: rest := by
    rw [List.dropWhile_append_of_pos plain]
    rfl
  rw [unescapeFrom]
  split
  · next after found =>
    obtain rfl := (List.cons.inj (behind.symm.trans found)).2
    rw [front, stands]
  · next other =>
    exact absurd behind (other rest)

/-- What is written for a character is read as that character. -/
theorem unescapeFrom_escapeChar (size position : Nat) (done rest : List Char) (c : Char) :
    ∃ position', unescapeFrom size position done (escapeChar c ++ rest)
      = unescapeFrom size position' (c :: done) rest := by
  rw [escapeChar]
  split
  -- An ampersand is among the characters that are replaced, so what is not replaced is plain.
  · next name named =>
    obtain ⟨-, plain, stands⟩ := of_entityName? named
    rw [List.cons_append, List.append_assoc]
    exact ⟨_, unescapeFrom_reference plain (stands _)⟩
  · next unnamed =>
    have notAmp : ∀ d ∈ [c], d ≠ '&' := by
      rintro d member rfl
      rw [← List.mem_singleton.1 member] at unnamed
      exact absurd unnamed (by decide)
    exact ⟨_, unescapeFrom_append notAmp⟩

/-- What is written for characters is read as these characters. -/
theorem unescapeFrom_escape (size position : Nat) (done cs : List Char) :
    unescapeFrom size position done (escape cs) = .ok (done.reverse ++ cs) := by
  induction cs generalizing position done with
  | nil =>
    rw [escape, List.flatMap_nil, unescapeFrom, List.append_nil]
  | cons c cs ih =>
    obtain ⟨position', read⟩ := unescapeFrom_escapeChar size position done (escape cs) c
    rw [escape, List.flatMap_cons, ← escape, read, ih, List.reverse_cons, List.append_assoc]
    rfl

/-- **What is escaped is unescaped to the same text.** -/
theorem unescape_escape (cs : List Char) :
    unescape (String.ofList (escape cs)) = .ok (String.ofList cs) := by
  rw [unescape, String.toList_ofList, unescapeFrom_escape]
  rfl

end PetriQuery.Markup
