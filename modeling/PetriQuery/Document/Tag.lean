/-!
# Element kinds

The element names of the query language, and every other name under one further kind, so that
elements outside the language can be ignored where they may stand and named where they may not.

Main facts: a name is read into the kind that has it as its name (`name_ofName`), so that two names
are of one kind iff they are equal (`ofName_inj`).
-/

set_option autoImplicit false

namespace PetriQuery.Document

/-- The kinds of elements. -/
inductive Tag where
  | propertySet
  | property
  | id
  | formula
  | tags
  | isReachability
  | smc
  | observations
  | watch
  | kSafe
  | control
  | invariant
  | impossibility
  | possibility
  | existsPath
  | allPaths
  | next
  | always
  | eventually
  | holdUntil
  | before
  | reach
  | deadlock
  | alwaysTrue
  | alwaysFalse
  | negation
  | conjunction
  | disjunction
  | exclusiveDisjunction
  | implication
  | equivalence
  | integerEq
  | integerNe
  | integerLt
  | integerLe
  | integerGt
  | integerGe
  | integerConstant
  | tokensCount
  | place
  | integerSum
  | integerProduct
  | integerDifference
  /-- A name outside the language. -/
  | other (name : String)
deriving DecidableEq, Repr

namespace Tag

/-- The element name of a kind. -/
def name : Tag → String
  | .propertySet => "property-set"
  | .property => "property"
  | .id => "id"
  | .formula => "formula"
  | .tags => "tags"
  | .isReachability => "is-reachability"
  | .smc => "smc"
  | .observations => "observations"
  | .watch => "watch"
  | .kSafe => "k-safe"
  | .control => "control"
  | .invariant => "invariant"
  | .impossibility => "impossibility"
  | .possibility => "possibility"
  | .existsPath => "exists-path"
  | .allPaths => "all-paths"
  | .next => "next"
  | .always => "globally"
  | .eventually => "finally"
  | .holdUntil => "until"
  | .before => "before"
  | .reach => "reach"
  | .deadlock => "deadlock"
  | .alwaysTrue => "true"
  | .alwaysFalse => "false"
  | .negation => "negation"
  | .conjunction => "conjunction"
  | .disjunction => "disjunction"
  | .exclusiveDisjunction => "exclusive-disjunction"
  | .implication => "implication"
  | .equivalence => "equivalence"
  | .integerEq => "integer-eq"
  | .integerNe => "integer-ne"
  | .integerLt => "integer-lt"
  | .integerLe => "integer-le"
  | .integerGt => "integer-gt"
  | .integerGe => "integer-ge"
  | .integerConstant => "integer-constant"
  | .tokensCount => "tokens-count"
  | .place => "place"
  | .integerSum => "integer-sum"
  | .integerProduct => "integer-product"
  | .integerDifference => "integer-difference"
  | .other name => name

/-- The kinds of the language. -/
def language : List Tag :=
  [.propertySet, .property, .id, .formula, .tags, .isReachability, .smc, .observations, .watch,
    .kSafe, .control, .invariant, .impossibility, .possibility, .existsPath, .allPaths, .next,
    .always, .eventually, .holdUntil, .before, .reach, .deadlock, .alwaysTrue, .alwaysFalse,
    .negation, .conjunction, .disjunction, .exclusiveDisjunction, .implication, .equivalence,
    .integerEq, .integerNe, .integerLt, .integerLe, .integerGt, .integerGe, .integerConstant,
    .tokensCount, .place, .integerSum, .integerProduct, .integerDifference]

/-- The kind of an element with the given name. -/
def ofName : String → Tag
  | "property-set" => .propertySet
  | "property" => .property
  | "id" => .id
  | "formula" => .formula
  | "tags" => .tags
  | "is-reachability" => .isReachability
  | "smc" => .smc
  | "observations" => .observations
  | "watch" => .watch
  | "k-safe" => .kSafe
  | "control" => .control
  | "invariant" => .invariant
  | "impossibility" => .impossibility
  | "possibility" => .possibility
  | "exists-path" => .existsPath
  | "all-paths" => .allPaths
  | "next" => .next
  | "globally" => .always
  | "finally" => .eventually
  | "until" => .holdUntil
  | "before" => .before
  | "reach" => .reach
  | "deadlock" => .deadlock
  | "true" => .alwaysTrue
  | "false" => .alwaysFalse
  | "negation" => .negation
  | "conjunction" => .conjunction
  | "disjunction" => .disjunction
  | "exclusive-disjunction" => .exclusiveDisjunction
  | "implication" => .implication
  | "equivalence" => .equivalence
  | "integer-eq" => .integerEq
  | "integer-ne" => .integerNe
  | "integer-lt" => .integerLt
  | "integer-le" => .integerLe
  | "integer-gt" => .integerGt
  | "integer-ge" => .integerGe
  | "integer-constant" => .integerConstant
  | "tokens-count" => .tokensCount
  | "place" => .place
  | "integer-sum" => .integerSum
  | "integer-product" => .integerProduct
  | "integer-difference" => .integerDifference
  | name => .other name

instance : ToString Tag := ⟨name⟩

/-- The kind of a name has that name. -/
theorem name_ofName (s : String) : (ofName s).name = s := by
  unfold ofName
  split <;> rfl

/-- Two names are of one kind iff they are equal. -/
theorem ofName_inj {s t : String} : ofName s = ofName t ↔ s = t := by
  constructor
  · intro h
    rw [← name_ofName s, h, name_ofName]
  · rintro rfl
    rfl

end Tag

end PetriQuery.Document
