import PetriQuery.Query.Names

/-!
# Attributes of an element

A finite map from keys to values, as the list of its entries in increasing order of the keys. Two
maps with the same entries are equal, in whatever order these were added.

Main facts: `get?_insert` says what a key has after an entry was added, and two maps that give every
key the same value are equal (`ext_get?`).
-/

set_option autoImplicit false

namespace PetriQuery.Document

/-- A map from keys to values. -/
structure Attributes where
  entries : List (String × String)
  /-- The keys increase. -/
  sorted : entries.Pairwise fun a b => a.1 < b.1
deriving DecidableEq

namespace Attributes

/-- The map without entries. -/
def empty : Attributes := ⟨[], .nil⟩

/-- Puts an entry into an increasing list, in the place of an entry with the same key. -/
def insertEntry (key value : String) : List (String × String) → List (String × String)
  | [] => [(key, value)]
  | first :: rest =>
    if key < first.1 then (key, value) :: first :: rest
    else if key = first.1 then (key, value) :: rest
    else first :: insertEntry key value rest

/-- The keys after an entry was put into a list are those before and the new one. -/
theorem key_of_mem_insertEntry {key value : String} {entries : List (String × String)}
    {entry : String × String} (h : entry ∈ insertEntry key value entries) :
    entry.1 = key ∨ entry ∈ entries := by
  induction entries with
  | nil =>
    rw [insertEntry, List.mem_singleton] at h
    exact Or.inl (by rw [h])
  | cons first rest ih =>
    simp only [insertEntry] at h
    split at h
    · rcases List.mem_cons.1 h with rfl | h
      · exact Or.inl rfl
      · exact Or.inr h
    · split at h
      · rcases List.mem_cons.1 h with rfl | h
        · exact Or.inl rfl
        · exact Or.inr (List.mem_cons_of_mem _ h)
      · rcases List.mem_cons.1 h with rfl | h
        · exact Or.inr List.mem_cons_self
        · rcases ih h with same | h
          · exact Or.inl same
          · exact Or.inr (List.mem_cons_of_mem _ h)

/-- Putting an entry into an increasing list keeps it increasing. -/
theorem pairwise_insertEntry {key value : String} {entries : List (String × String)}
    (sorted : entries.Pairwise fun a b => a.1 < b.1) :
    (insertEntry key value entries).Pairwise fun a b => a.1 < b.1 := by
  induction sorted with
  | nil => simp [insertEntry]
  | @cons first rest least sorted ih =>
    simp only [insertEntry]
    split
    · next before =>
      refine List.Pairwise.cons ?_ (List.Pairwise.cons least sorted)
      intro entry member
      rcases List.mem_cons.1 member with rfl | member
      · exact before
      · exact String.lt_trans before (least entry member)
    · next notBefore =>
      split
      · next same =>
        subst same
        exact List.Pairwise.cons least sorted
      · next differs =>
        -- The entry goes in further back, so the first key has to come before the new one too.
        refine List.Pairwise.cons ?_ ih
        intro entry member
        rcases key_of_mem_insertEntry member with same | member
        · rw [same]
          exact Query.Names.lt_of_not_lt_of_ne notBefore differs
        · exact least entry member

/-- Adds an entry. -/
def insert (key value : String) (attributes : Attributes) : Attributes :=
  ⟨insertEntry key value attributes.entries, pairwise_insertEntry attributes.sorted⟩

/-- The map with the given entries, the last one of those with one key. -/
def ofList (entries : List (String × String)) : Attributes :=
  entries.foldl (fun attributes entry => attributes.insert entry.1 entry.2) empty

/-- The value of a key. -/
def get? (attributes : Attributes) (key : String) : Option String :=
  (attributes.entries.find? fun entry => entry.1 = key).map Prod.snd

/-- In a list of entries whose keys all lie after a key, the key is not found. -/
theorem find?_eq_none_of_lt {key : String} {entries : List (String × String)}
    (least : ∀ entry ∈ entries, key < entry.1) :
    (entries.find? fun entry => entry.1 = key) = none := by
  rw [List.find?_eq_none]
  intro entry member same
  have later := least entry member
  simp only [decide_eq_true_eq] at same
  rw [same] at later
  exact String.lt_irrefl _ later

/-- What is found after an entry was put into an increasing list. -/
theorem find?_insertEntry {key value other : String} {entries : List (String × String)}
    (sorted : entries.Pairwise fun a b => a.1 < b.1) :
    (insertEntry key value entries).find? (fun entry => entry.1 = other)
      = if key = other then some (key, value) else entries.find? fun entry => entry.1 = other := by
  induction sorted with
  | nil =>
    by_cases same : key = other
    · simp [insertEntry, same]
    · simp [insertEntry, same]
  | @cons first rest least sorted ih =>
    simp only [insertEntry]
    split
    · by_cases same : key = other
      · simp [same]
      · simp [same, List.find?_cons]
    · split
      · next equal =>
        by_cases same : key = other
        · simp [same]
        · have differs : ¬ first.1 = other := by
            rw [← equal]
            exact same
          simp [same, differs]
      · next differs =>
        by_cases same : key = other
        · have skip : ¬ first.1 = other := by
            rw [← same]
            exact fun h => differs h.symm
          rw [List.find?_cons_of_neg (by simpa using skip), ih, if_pos same, if_pos same]
        · simp only [List.find?_cons, ih, if_neg same]

/-- A key has the value that was added last for it. -/
theorem get?_insert (attributes : Attributes) (key value other : String) :
    (attributes.insert key value).get? other
      = if key = other then some value else attributes.get? other := by
  rw [get?, insert, find?_insertEntry attributes.sorted]
  split
  · rfl
  · rfl

/-- The first entry of an increasing list is the one found for its key. -/
theorem find?_head (first : String × String) (rest : List (String × String)) :
    ((first :: rest).find? fun entry => entry.1 = first.1) = some first := by
  simp

/-- Increasing lists in which every key finds the same entry are equal. -/
theorem eq_of_find?_eq {as bs : List (String × String)}
    (sortedA : as.Pairwise fun a b => a.1 < b.1) (sortedB : bs.Pairwise fun a b => a.1 < b.1)
    (same : ∀ key : String, (as.find? fun entry => entry.1 = key).map Prod.snd
      = (bs.find? fun entry => entry.1 = key).map Prod.snd) : as = bs := by
  induction as generalizing bs with
  | nil =>
    cases bs with
    | nil => rfl
    | cons b bs =>
      have h := same b.1
      rw [find?_head] at h
      cases h
  | cons a as ih =>
    cases bs with
    | nil =>
      have h := same a.1
      rw [find?_head] at h
      cases h
    | cons b bs =>
      obtain ⟨leastA, tailA⟩ := List.pairwise_cons.1 sortedA
      obtain ⟨leastB, tailB⟩ := List.pairwise_cons.1 sortedB
      -- If the first keys differed, the earlier one would be found in its own list only.
      have notFirst : ∀ {x y : String × String} {xs ys : List (String × String)},
          (∀ entry ∈ ys, y.1 < entry.1) → x.1 < y.1 →
          ((x :: xs).find? fun entry => entry.1 = x.1).map Prod.snd
            ≠ ((y :: ys).find? fun entry => entry.1 = x.1).map Prod.snd := by
        intro x y xs ys least before h
        rw [find?_head, find?_eq_none_of_lt] at h
        · cases h
        · intro entry member
          rcases List.mem_cons.1 member with rfl | member
          · exact before
          · exact String.lt_trans before (least entry member)
      have keys : a.1 = b.1 := by
        by_cases before : a.1 < b.1
        · exact absurd (same a.1) (notFirst leastB before)
        · by_cases after : b.1 < a.1
          · exact absurd (same b.1).symm (notFirst leastA after)
          · exact String.le_antisymm (String.not_lt.1 after) (String.not_lt.1 before)
      have values : a.2 = b.2 := by
        have h := same a.1
        rw [find?_head, keys, find?_head] at h
        exact Option.some.inj h
      have heads : a = b := Prod.ext keys values
      subst heads
      congr 1
      -- What the rests give a key differs from what the lists give it for the first key only, and
      -- that one is in neither rest.
      refine ih tailA tailB fun key => ?_
      by_cases first : a.1 = key
      · subst first
        rw [find?_eq_none_of_lt leastA, find?_eq_none_of_lt leastB]
      · have h := same key
        rw [List.find?_cons_of_neg (by simpa using first),
          List.find?_cons_of_neg (by simpa using first)] at h
        exact h

/-- Two maps that give every key the same value are equal. -/
theorem ext_get? {a b : Attributes} (h : ∀ key, a.get? key = b.get? key) : a = b := by
  obtain ⟨as, sortedA⟩ := a
  obtain ⟨bs, sortedB⟩ := b
  obtain rfl : as = bs := eq_of_find?_eq sortedA sortedB h
  rfl

end Attributes

end PetriQuery.Document
