/-!
# Ordered sets of names

A finite set of names as the list of its members in increasing order. Names are ordered by their
characters, these by code point.

Main facts: `ordered` keeps the members (`mem_ordered`) and lists them in strictly increasing order
(`pairwise_ordered`), so that no name occurs twice.
-/

set_option autoImplicit false

namespace PetriQuery.Query.Names

/-- Adds a name to an increasing list. -/
def insert (name : String) : List String → List String
  | [] => [name]
  | first :: rest =>
    if name < first then name :: first :: rest
    else if name = first then first :: rest
    else first :: insert name rest

/-- The set of the given names. -/
def ordered (names : List String) : List String := names.foldr insert []

/-- Adding a name adds nothing else and loses nothing. -/
theorem mem_insert {name other : String} {names : List String} :
    other ∈ insert name names ↔ other = name ∨ other ∈ names := by
  induction names with
  | nil => simp [insert]
  | cons first rest ih =>
    simp only [insert]
    split
    · simp
    · split
      · next same =>
        subst same
        simp
      · simp only [List.mem_cons, ih]
        constructor
        · rintro (h | h | h)
          · exact Or.inr (Or.inl h)
          · exact Or.inl h
          · exact Or.inr (Or.inr h)
        · rintro (h | h | h)
          · exact Or.inr (Or.inl h)
          · exact Or.inl h
          · exact Or.inr (Or.inr h)

/-- The set of names has the given names as members. -/
theorem mem_ordered {name : String} {names : List String} :
    name ∈ ordered names ↔ name ∈ names := by
  induction names with
  | nil => simp [ordered]
  | cons first rest ih =>
    have step : ordered (first :: rest) = insert first (ordered rest) := rfl
    rw [step, mem_insert, ih, List.mem_cons]

/-- Of two different names that are not in one order, the other order holds. -/
theorem lt_of_not_lt_of_ne {a b : String} (notLt : ¬ a < b) (ne : a ≠ b) : b < a := by
  by_cases h : b < a
  · exact h
  · exact absurd (String.le_antisymm (String.not_lt.1 h) (String.not_lt.1 notLt)) ne

/-- Adding a name keeps an increasing list increasing. -/
theorem pairwise_insert {name : String} {names : List String}
    (sorted : names.Pairwise (· < ·)) : (insert name names).Pairwise (· < ·) := by
  induction sorted with
  | nil => simp [insert]
  | @cons first rest least sorted ih =>
    simp only [insert]
    split
    · next before =>
      refine List.Pairwise.cons ?_ (List.Pairwise.cons least sorted)
      intro other member
      rcases List.mem_cons.1 member with rfl | member
      · exact before
      · exact String.lt_trans before (least other member)
    · next notBefore =>
      split
      · exact List.Pairwise.cons least sorted
      · next differs =>
        -- The name goes in further back, so the first one has to come before it too.
        refine List.Pairwise.cons ?_ ih
        intro other member
        rcases mem_insert.1 member with rfl | member
        · exact lt_of_not_lt_of_ne notBefore differs
        · exact least other member

/-- The members of a set are listed in strictly increasing order. -/
theorem pairwise_ordered (names : List String) : (ordered names).Pairwise (· < ·) := by
  induction names with
  | nil => exact List.Pairwise.nil
  | cons first rest ih => exact pairwise_insert ih

end PetriQuery.Query.Names
