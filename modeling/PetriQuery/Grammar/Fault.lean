/-!
# Faults of the query language

Why a tree that was built from a document is no set of queries, and the wording of each cause.
-/

set_option autoImplicit false

namespace PetriQuery.Grammar

/-- How many children an element has to have. -/
inductive Arity where
  | exactly (count : Nat)
  | atLeast (count : Nat)
deriving DecidableEq, Repr

/-- Whether a number of children will do. -/
def Arity.admits (arity : Arity) (found : Nat) : Bool :=
  match arity with
  | .exactly count => found = count
  | .atLeast count => count ≤ found

/-- The wording of an arity. -/
def Arity.message : Arity → String
  | .exactly count => s!"exactly {count}"
  | .atLeast count => s!"at least {count}"

instance : ToString Arity := ⟨Arity.message⟩

/-- What an element was to be a part of. -/
inductive Construct where
  | booleanFormula
  | pathFormula
  | statisticalFormula
  | comparison
  | integerExpression
  | tokensCount
deriving DecidableEq, Repr

/-- The wording of a construct. -/
def Construct.message : Construct → String
  | .booleanFormula => "boolean formula"
  | .pathFormula => "path formula"
  | .statisticalFormula => "statistical formula"
  | .comparison => "comparison"
  | .integerExpression => "integer expression"
  | .tokensCount => "tokens-count"

instance : ToString Construct := ⟨Construct.message⟩

/-- Why a tree is no set of queries. -/
inductive Fault where
  | unexpectedRoot (name : String)
  | notProperty (name : String)
  | unexpectedTag (name : String) (context : Construct)
  | wrongArity (name : String) (expected : Arity) (found : Nat)
  | untilOperands (first second : String)
  | missingId
  | missingFormula (id : String)
  | invalidInteger (text : String)
  | invalidAttribute (key value : String)
  | emptyPlace
  | tooDeep (limit : Nat)
  /-- Observables were given to a query that is not statistical. -/
  | notStatistical (id : String)
deriving DecidableEq, Repr

/-- The wording of a fault. -/
def Fault.message : Fault → String
  | .unexpectedRoot name => s!"root element must be `property-set`, found `{name}`"
  | .notProperty name => s!"expected `property` element, found `{name}`"
  | .unexpectedTag name context => s!"unknown or unexpected tag `{name}` in {context}"
  | .wrongArity name expected found => s!"`{name}` requires {expected} children, found {found}"
  | .untilOperands first second =>
    s!"`until` requires `before` and `reach` children, found `{first}` and `{second}`"
  | .missingId => "property has a missing or empty id"
  | .missingFormula id => s!"property `{id}` has no formula"
  | .invalidInteger text => s!"`{text}` is not a valid integer"
  | .invalidAttribute key value => s!"invalid value `{value}` for attribute `{key}`"
  | .emptyPlace => "place with empty name"
  | .tooDeep limit => s!"nesting exceeds the maximum depth of {limit}"
  | .notStatistical id => s!"property '{id}' is not a statistical query"

end PetriQuery.Grammar
