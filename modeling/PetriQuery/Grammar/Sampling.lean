import PetriQuery.Grammar.Expression
import PetriQuery.Numeral.Reading
import PetriQuery.Query.Condition

/-!
# Elements of a statistical query

The settings that the attributes of an `smc` element make, and the observables that the `watch`
children of an `observations` element name. An attribute that is missing leaves the default, and a
`watch` without a name is passed over.
-/

set_option autoImplicit false

namespace PetriQuery.Grammar

open Document (Element)
open Numeral (Binary32)
open Query (Expr Observable Sampling)

/-- The value of an attribute, blanks around it left out, or none if it is missing. -/
def readAttribute {α : Type} (read? : List Char → Option α) (e : Element) (key : String) :
    Traced Fault (Option α) :=
  match e.get? key with
  | none => return none
  | some value =>
    match read? (Text.trimmed value.toList) with
    | some found => return some found
    | none =>
      Traced.refuse s!"invalid value '{value}' for attribute '{key}'" (.invalidAttribute key value)

/-- The integer in an attribute. -/
def readBound : Element → String → Traced Fault (Option Int32) :=
  readAttribute fun text => (Numeral.readInt32 text).toOption

/-- The fraction in an attribute. -/
def readFraction : Element → String → Traced Fault (Option Binary32) :=
  readAttribute Binary32.read?

/-- The settings that an `smc` element makes. The width of the indifference region is the same up
and down, and the query is a hypothesis test iff a threshold is given. -/
def settings (e : Element) : Traced Fault Sampling := do
  let defaults := Sampling.default
  -- The order counts: of several values that cannot be read the first one is reported.
  let timeBound ← readBound e "time-bound"
  let stepBound ← readBound e "step-bound"
  let falsePositives ← readFraction e "false-positives"
  let falseNegatives ← readFraction e "false-negatives"
  let indifference ← readFraction e "indifference"
  let confidence ← readFraction e "confidence"
  let intervalWidth ← readFraction e "interval-width"
  let threshold ← readFraction e "compare-to"
  let made : Sampling :=
    { timeBound := timeBound.getD defaults.timeBound
      stepBound := stepBound.getD defaults.stepBound
      falsePositives := falsePositives.getD defaults.falsePositives
      falseNegatives := falseNegatives.getD defaults.falseNegatives
      indifferenceUp := indifference.getD defaults.indifferenceUp
      indifferenceDown := indifference.getD defaults.indifferenceDown
      confidence := confidence.getD defaults.confidence
      intervalWidth := intervalWidth.getD defaults.intervalWidth
      isTest := threshold.isSome
      threshold := threshold.getD defaults.threshold }
  Traced.note .debug ("SMC settings: " ++ made.describe)
  return made

/-- The observable that a `watch` element names, if it has a name. -/
def observable? (limit : Nat) (e : Element) : Traced Fault (Option Observable) :=
  match e.get? "name" with
  | none => do
    Traced.note .warn "ignoring observable with no name"
    return none
  | some name => do
    let expression ← toExpr limit limit (← onlyChild e)
    return some (name, expression)

/-- The observables that the children of an `observations` element name. -/
def observables (limit : Nat) (e : Element) : Traced Fault (List Observable) := do
  let watches := e.children.filter fun child => child.tag = .watch
  return (← watches.mapM (observable? limit)).filterMap id

end PetriQuery.Grammar
