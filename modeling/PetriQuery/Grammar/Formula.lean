import PetriQuery.Grammar.Expression
import PetriQuery.Query.Condition

/-!
# Elements as conditions

Which condition an element denotes, if it denotes one. Operators that are no conditions are written
with those that are, with `EF`, negation, conjunction and disjunction:

- an invariant `φ` is `¬ EF ¬ φ`, an impossibility `¬ EF φ`, a possibility `EF φ`;
- the negation of one of the three is `EF ¬ φ`, `EF φ` and `¬ EF φ`;
- an implication is `¬ φ ∨ ψ`, an equivalence `(φ ∧ ψ) ∨ (¬ φ ∧ ¬ ψ)`, an exclusive disjunction
  `(φ ∧ ¬ ψ) ∨ (¬ φ ∧ ψ)`.

A level of nesting is used up by each formula and by each expression. A path quantifier and the
modality below it use up one level together, and so do a negation and the reachability formula right
below it. The recursion is on the number of levels that are left.
-/

set_option autoImplicit false

namespace PetriQuery.Grammar

open Document (Element Tag)
open Query (Condition Expr Modality Operator PathQuantifier Relation RunGoal Sampling)

/-- How the elements below an element are read. -/
abbrev Reader (α : Type) := Element → Traced Fault α

/-! ## Comparisons -/

/-- The comparison that an element states of its two operands. -/
def compareOperands (e : Element) (left right : Expr) : Traced Fault Condition :=
  match e.tag with
  | .integerEq => return .compare .equal left right
  | .integerNe => return .compare .notEqual left right
  | .integerLt => return .compare .less left right
  | .integerLe => return .compare .lessEqual left right
  -- There are no conditions for these two, so the operands change sides.
  | .integerGt => return .compare .less right left
  | .integerGe => return .compare .lessEqual right left
  | _ => unexpected e .comparison

/-- A comparison of two expressions. -/
def comparison (expression : Reader Expr) (e : Element) : Traced Fault Condition := do
  let (first, second) ← twoChildren e
  let left ← expression first
  let right ← expression second
  compareOperands e left right

/-! ## Connectives -/

/-- The conditions of two children. -/
def pair (read : Reader Condition) (e : Element) :
    Traced Fault (Condition × Condition) := do
  let (first, second) ← twoChildren e
  let left ← read first
  let right ← read second
  return (left, right)

/-- The conditions of two or more children, combined from the left. -/
def combine (read : Reader Condition) (op : Condition → Condition → Condition)
    (e : Element) : Traced Fault Condition := do
  let (first, rest) ← operands e
  let start ← read first
  rest.foldlM (fun sofar child => op sofar <$> read child) start

/-- Exactly one of two conditions. -/
def exclusive (left right : Condition) : Condition :=
  .disj (.conj left (.neg right)) (.conj (.neg left) right)

/-- Both or neither of two conditions. -/
def equivalent (left right : Condition) : Condition :=
  .disj (.conj left right) (.conj (.neg left) (.neg right))

/-- The negation of the only child. Above a reachability formula it is written into that formula. -/
def negation (read : Reader Condition) (e : Element) : Traced Fault Condition := do
  let child ← onlyChild e
  match child.tag with
  | .invariant => return (Condition.neg (← read (← onlyChild child))).ef
  | .impossibility => return (← read (← onlyChild child)).ef
  | .possibility => return .neg (← read (← onlyChild child)).ef
  | _ => return .neg (← read child)

/-! ## Paths -/

/-- The two conditions of an `until` element. -/
def untilOperands (read : Reader Condition) (e : Element) :
    Traced Fault (Condition × Condition) := do
  let (before, reach) ← twoChildren e
  -- Both kinds are judged before either operand is read.
  if before.tag = .before ∧ reach.tag = .reach then
    let hold ← read (← onlyChild before)
    let goal ← read (← onlyChild reach)
    return (hold, goal)
  else
    Traced.refuse s!"'until' requires 'before' and 'reach', found '{before.tag}' and '{reach.tag}'"
      (.untilOperands before.name reach.name)

/-- A quantifier over paths, with the modality that its only child is. -/
def pathFormula (read : Reader Condition) (quantifier : PathQuantifier) (e : Element) :
    Traced Fault Condition := do
  let modality ← onlyChild e
  match modality.tag with
  | .next => return .path quantifier .next (← read (← onlyChild modality))
  | .always => return .path quantifier .always (← read (← onlyChild modality))
  | .eventually => return .path quantifier .eventually (← read (← onlyChild modality))
  | .holdUntil =>
    let (before, goal) ← untilOperands read modality
    return .holdUntil quantifier before goal
  | _ => unexpected modality .pathFormula

/-! ## Formulae -/

/-- The condition that an element denotes, if it nests no deeper than the levels that are left. -/
def toCondition (limit : Nat) : Nat → Element → Traced Fault Condition
  | 0, _ => refuseDepth limit
  | left + 1, e =>
    match e.tag with
    | .invariant => do
      return .neg (Condition.neg (← toCondition limit left (← onlyChild e))).ef
    | .impossibility => do
      return .neg (← toCondition limit left (← onlyChild e)).ef
    | .possibility => do
      return (← toCondition limit left (← onlyChild e)).ef
    | .existsPath => pathFormula (toCondition limit left) .somePath e
    | .allPaths => pathFormula (toCondition limit left) .everyPath e
    | .deadlock => do
      noChildren e
      return .deadlock
    | .alwaysTrue => do
      noChildren e
      return .truth true
    | .alwaysFalse => do
      noChildren e
      return .truth false
    | .negation => negation (toCondition limit left) e
    | .conjunction => combine (toCondition limit left) .conj e
    | .disjunction => combine (toCondition limit left) .disj e
    | .exclusiveDisjunction => do
      let (left', right') ← pair (toCondition limit left) e
      return exclusive left' right'
    | .implication => do
      let (left', right') ← pair (toCondition limit left) e
      return .disj (.neg left') right'
    | .equivalence => do
      let (left', right') ← pair (toCondition limit left) e
      return equivalent left' right'
    | .integerEq | .integerNe | .integerLt | .integerLe | .integerGt | .integerGe =>
      comparison (toExpr limit left) e
    | _ => unexpected e .booleanFormula

/-- The condition in a `formula` element: a property of a whole net or a formula. -/
def formula (limit : Nat) (e : Element) : Traced Fault Condition := do
  let child ← onlyChild e
  -- Elements of these two kinds use up no level, so what is in them has all of them left.
  match child.tag with
  | .kSafe => return .kSafe (← toExpr limit limit (← onlyChild child))
  | .control => return .control (← toCondition limit limit (← onlyChild child))
  | _ => toCondition limit limit child

/-- The statistical query in a `formula` element, without observables. -/
def statisticalFormula (limit : Nat) (settings : Sampling) (e : Element) :
    Traced Fault Condition := do
  let child ← onlyChild e
  match child.tag with
  | .eventually =>
    return .probability .eventually settings (← toCondition limit limit (← onlyChild child)) []
  | .always =>
    return .probability .always settings (← toCondition limit limit (← onlyChild child)) []
  | _ => unexpected child .statisticalFormula

end PetriQuery.Grammar
