import PetriQuery.Query.Expr
import PetriQuery.Query.Sampling

/-!
# Conditions

Formulae of computation tree logic over the markings of a Petri net, with comparisons of integer
expressions as their atoms, two properties of a whole net (`kSafe`, `control`) and statistical
queries. Implication, equivalence, exclusive disjunction, invariance and impossibility are not among
the conditions: they are written with the operators that are.

`render` is the text of a condition, `isStateFormula` tells the conditions that a single marking
decides, `places` is the set of the places mentioned, and `agrees` compares conditions with the
fractions in their settings compared as numbers.
-/

set_option autoImplicit false

namespace PetriQuery.Query

/-- Comparisons of two integers. -/
inductive Relation where
  | equal
  | notEqual
  | less
  | lessEqual
deriving DecidableEq, Repr

/-- What stands between the two sides of a comparison. -/
def Relation.symbol : Relation → String
  | .equal => "=="
  | .notEqual => "!="
  | .less => "<"
  | .lessEqual => "<="

/-- Whether one path from a state is meant or every path. -/
inductive PathQuantifier where
  | somePath
  | everyPath
deriving DecidableEq, Repr

/-- The letter of a quantifier. -/
def PathQuantifier.letter : PathQuantifier → Char
  | .somePath => 'E'
  | .everyPath => 'A'

/-- When a condition has to hold along a path. -/
inductive Modality where
  /-- In the second state of the path. -/
  | next
  /-- In every state of the path. -/
  | always
  /-- In some state of the path. -/
  | eventually
deriving DecidableEq, Repr

/-- The letter of a modality. -/
def Modality.letter : Modality → Char
  | .next => 'X'
  | .always => 'G'
  | .eventually => 'F'

/-- What the runs of a statistical query are sampled for. -/
inductive RunGoal where
  /-- The condition holds in some state of the run. -/
  | eventually
  /-- The condition holds in every state of the run. -/
  | always
deriving DecidableEq, Repr

/-- The letter of a goal. -/
def RunGoal.letter : RunGoal → Char
  | .eventually => 'F'
  | .always => 'G'

/-- An expression recorded along sampled runs, under a name. -/
abbrev Observable := String × Expr

/-- Conditions on the markings of a net. -/
inductive Condition where
  /-- Always or never. -/
  | truth (value : Bool)
  /-- No transition is enabled. -/
  | deadlock
  | neg (body : Condition)
  | conj (left right : Condition)
  | disj (left right : Condition)
  | compare (relation : Relation) (left right : Expr)
  /-- Along one path or every path, the condition holds as the modality says. -/
  | path (quantifier : PathQuantifier) (modality : Modality) (body : Condition)
  /-- Along one path or every path, `goal` holds in some state and `before` in all states before
  it. -/
  | holdUntil (quantifier : PathQuantifier) (before goal : Condition)
  /-- In no reachable marking does a place hold more tokens than the bound. -/
  | kSafe (bound : Expr)
  /-- The structural control property over a condition. -/
  | control (body : Condition)
  /-- The probability that a run meets the goal. -/
  | probability (goal : RunGoal) (settings : Sampling) (body : Condition)
      (observables : List Observable)
deriving DecidableEq, Repr

namespace Condition

/-! ## The temporal operators by their letters -/

/-- Some successor satisfies the condition. -/
def ex (c : Condition) : Condition := .path .somePath .next c

/-- Along some path the condition always holds. -/
def eg (c : Condition) : Condition := .path .somePath .always c

/-- Along some path the condition eventually holds. -/
def ef (c : Condition) : Condition := .path .somePath .eventually c

/-- Along some path the first condition holds until the second does. -/
def eu (c d : Condition) : Condition := .holdUntil .somePath c d

/-- Every successor satisfies the condition. -/
def ax (c : Condition) : Condition := .path .everyPath .next c

/-- Along every path the condition always holds. -/
def ag (c : Condition) : Condition := .path .everyPath .always c

/-- Along every path the condition eventually holds. -/
def af (c : Condition) : Condition := .path .everyPath .eventually c

/-- Along every path the first condition holds until the second does. -/
def au (c d : Condition) : Condition := .holdUntil .everyPath c d

/-! ## Statistical queries -/

/-- The settings of a statistical query, if the condition is one. -/
def settings? : Condition → Option Sampling
  | .probability _ settings _ _ => some settings
  | _ => none

/-- The observables of a statistical query, if the condition is one. -/
def observables? : Condition → Option (List Observable)
  | .probability _ _ _ observables => some observables
  | _ => none

/-- The statistical query with other observables, if the condition is one. -/
def withObservables? (observables : List Observable) : Condition → Option Condition
  | .probability goal settings body _ => some (.probability goal settings body observables)
  | _ => none

/-- Whether the condition is a statistical query. -/
def isStatistical (c : Condition) : Bool := c.settings?.isSome

/-! ## Structure -/

/-- Whether a single marking decides the condition: no temporal operator occurs in it, no property
of a whole net and no statistical query. -/
def isStateFormula : Condition → Bool
  | .truth _ | .deadlock | .compare _ _ _ => true
  | .neg body => body.isStateFormula
  | .conj left right | .disj left right => left.isStateFormula && right.isStateFormula
  | .path _ _ _ | .holdUntil _ _ _ | .kSafe _ | .control _ | .probability _ _ _ _ => false

/-- The places that a condition mentions, observables included, in order and as often as it does. -/
def mentions : Condition → List String
  | .truth _ | .deadlock => []
  | .compare _ left right => left.mentions ++ right.mentions
  | .kSafe bound => bound.mentions
  | .neg body | .path _ _ body | .control body => body.mentions
  | .conj left right | .disj left right | .holdUntil _ left right => left.mentions ++ right.mentions
  | .probability _ _ body observables =>
    body.mentions ++ observables.flatMap fun observable => observable.2.mentions

/-- The set of the places that a condition mentions. -/
def places (c : Condition) : List String := Names.ordered c.mentions

/-- A place belongs to the set of places iff it is mentioned. -/
theorem mem_places {name : String} {c : Condition} : name ∈ c.places ↔ name ∈ c.mentions :=
  Names.mem_ordered

/-- Whether two conditions are equal, the fractions in their settings compared as numbers. -/
def agrees : Condition → Condition → Bool
  | .truth a, .truth b => a = b
  | .deadlock, .deadlock => true
  | .neg c, .neg d => c.agrees d
  | .conj c c', .conj d d' => c.agrees d && c'.agrees d'
  | .disj c c', .disj d d' => c.agrees d && c'.agrees d'
  | .compare r a a', .compare s b b' => r = s && a = b && a' = b'
  | .path q m c, .path r n d => q = r && m = n && c.agrees d
  | .holdUntil q c c', .holdUntil r d d' => q = r && c.agrees d && c'.agrees d'
  | .kSafe a, .kSafe b => a = b
  | .control c, .control d => c.agrees d
  | .probability g s c os, .probability h t d ps =>
    g = h && s.agrees t && c.agrees d && os = ps
  | _, _ => false

/-! ## Text -/

/-- The characters of a condition's text. -/
def chars : Condition → List Char
  | .truth value => (toString value).toList
  | .deadlock => "deadlock".toList
  | .neg body => '!' :: '(' :: body.chars ++ [')']
  | .conj left right => '(' :: left.chars ++ " && ".toList ++ right.chars ++ [')']
  | .disj left right => '(' :: left.chars ++ " || ".toList ++ right.chars ++ [')']
  | .compare relation left right =>
    '(' :: left.chars ++ ' ' :: relation.symbol.toList ++ ' ' :: right.chars ++ [')']
  | .path quantifier modality body =>
    quantifier.letter :: modality.letter :: ' ' :: body.chars
  | .holdUntil quantifier before goal =>
    quantifier.letter :: '[' :: before.chars ++ " U ".toList ++ goal.chars ++ [']']
  | .kSafe bound => "k-safe(".toList ++ bound.chars ++ [')']
  | .control body => "control(".toList ++ body.chars ++ [')']
  | .probability goal _ body _ => 'P' :: goal.letter :: ' ' :: body.chars

/-- The text of a condition. A statistical query is written without its settings and its
observables. -/
def render (c : Condition) : String := String.ofList c.chars

instance : ToString Condition := ⟨render⟩

/-- Other observables can be given to exactly the statistical queries. -/
theorem isSome_withObservables? (c : Condition) (observables : List Observable) :
    (c.withObservables? observables).isSome = c.isStatistical := by
  cases c <;> rfl

end Condition

end PetriQuery.Query
