import PetriQuery.Document.Tag
import Mathlib.Logic.Basic

/-!
# The vocabulary

The names of the language, each with the kind that it is read into, as a table (`Tag.vocabulary`).
A name is read into what the table says of it, and a name that is not in the table into a kind of
its own (`Tag.ofName_eq_iff`). Only a kind that no name is read into, a name of the table as one
outside the language, is not found again by its name (`Tag.ofName_name_iff`).
-/

set_option autoImplicit false

namespace PetriQuery.Document.Tag

/-- The element names of the language, each with the kind that it is read into. -/
def vocabulary : List (String × Tag) :=
  [("property-set", .propertySet), ("property", .property), ("id", .id), ("formula", .formula),
    ("tags", .tags), ("is-reachability", .isReachability), ("smc", .smc),
    ("observations", .observations), ("watch", .watch), ("k-safe", .kSafe), ("control", .control),
    ("invariant", .invariant), ("impossibility", .impossibility), ("possibility", .possibility),
    ("exists-path", .existsPath), ("all-paths", .allPaths), ("next", .next), ("globally", .always),
    ("finally", .eventually), ("until", .holdUntil), ("before", .before), ("reach", .reach),
    ("deadlock", .deadlock), ("true", .alwaysTrue), ("false", .alwaysFalse),
    ("negation", .negation), ("conjunction", .conjunction), ("disjunction", .disjunction),
    ("exclusive-disjunction", .exclusiveDisjunction), ("implication", .implication),
    ("equivalence", .equivalence), ("integer-eq", .integerEq), ("integer-ne", .integerNe),
    ("integer-lt", .integerLt), ("integer-le", .integerLe), ("integer-gt", .integerGt),
    ("integer-ge", .integerGe), ("integer-constant", .integerConstant),
    ("tokens-count", .tokensCount), ("place", .place), ("integer-sum", .integerSum),
    ("integer-product", .integerProduct), ("integer-difference", .integerDifference)]

/-- The name is an element name of the language. -/
def InVocabulary (s : String) : Prop := ∃ tag, (s, tag) ∈ vocabulary

/-- The table pairs each kind of the language with its name. -/
theorem vocabulary_eq : vocabulary = language.map fun tag => (tag.name, tag) := rfl

/-- The kinds of the language are all kinds but those of the names outside of it. -/
theorem mem_language_iff {tag : Tag} : tag ∈ language ↔ ∀ s, tag ≠ .other s := by
  constructor
  · rintro member s rfl
    simp [language] at member
  · intro known
    cases tag with
    | other s => exact absurd rfl (known s)
    | _ => decide

/-- A name is paired with the kinds of the language that have it. -/
theorem mem_vocabulary_iff {s : String} {tag : Tag} :
    (s, tag) ∈ vocabulary ↔ tag ∈ language ∧ tag.name = s := by
  rw [vocabulary_eq, List.mem_map]
  constructor
  · rintro ⟨found, member, same⟩
    obtain ⟨rfl, rfl⟩ := Prod.mk.inj same
    exact ⟨member, rfl⟩
  · rintro ⟨member, rfl⟩
    exact ⟨tag, member, rfl⟩

/-- The name of a kind of the language is read into that kind. -/
theorem ofName_name_of_mem_language {tag : Tag} (h : tag ∈ language) : ofName tag.name = tag := by
  cases tag with
  | other s => exact absurd rfl (mem_language_iff.1 h s)
  | _ => rfl

/-- A name of the table is read into the kind it is paired with. -/
theorem ofName_of_mem {s : String} {tag : Tag} (h : (s, tag) ∈ vocabulary) : ofName s = tag := by
  obtain ⟨member, rfl⟩ := mem_vocabulary_iff.1 h
  exact ofName_name_of_mem_language member

/-- Any other name is read into a kind of its own. -/
theorem ofName_of_not_inVocabulary {s : String} (h : ¬InVocabulary s) : ofName s = .other s := by
  -- The name is that of its kind, so it would be in the table with a kind of the language.
  have outside : ofName s ∉ language := fun member =>
    h ⟨ofName s, mem_vocabulary_iff.2 ⟨member, name_ofName s⟩⟩
  rw [mem_language_iff, not_forall_not] at outside
  obtain ⟨s', kind⟩ := outside
  have same := name_ofName s
  rw [kind] at same
  obtain rfl : s' = s := same
  exact kind

/-- What a name is read into: what the table says of it, or else a kind of its own. -/
theorem ofName_eq_iff {s : String} {tag : Tag} :
    ofName s = tag ↔ (s, tag) ∈ vocabulary ∨ ¬InVocabulary s ∧ tag = .other s := by
  constructor
  · rintro rfl
    by_cases known : InVocabulary s
    · obtain ⟨tag, paired⟩ := known
      rw [ofName_of_mem paired]
      exact Or.inl paired
    · exact Or.inr ⟨known, ofName_of_not_inVocabulary known⟩
  · rintro (paired | ⟨unknown, rfl⟩)
    · exact ofName_of_mem paired
    · exact ofName_of_not_inVocabulary unknown

/-- A kind is found by its name, unless it takes a name of the language for one outside of it. -/
theorem ofName_name_iff {tag : Tag} :
    ofName tag.name = tag ↔ ¬∃ s, InVocabulary s ∧ tag = .other s := by
  constructor
  · rintro found ⟨s, ⟨kind, paired⟩, rfl⟩
    -- The name is read into a kind of the language, and that is none of the other ones.
    have known := (mem_vocabulary_iff.1 paired).1
    have same : kind = .other s := (ofName_of_mem paired).symm.trans found
    exact mem_language_iff.1 known s same
  · intro known
    rw [ofName_eq_iff]
    by_cases listed : tag ∈ language
    · exact Or.inl (mem_vocabulary_iff.2 ⟨listed, rfl⟩)
    · rw [mem_language_iff, not_forall_not] at listed
      obtain ⟨s, rfl⟩ := listed
      exact Or.inr ⟨fun paired => known ⟨s, paired, rfl⟩, rfl⟩

end PetriQuery.Document.Tag
