import PetriQuery.Grammar.Arity
import PetriQuery.Numeral.Integer
import PetriQuery.Query.Expr

/-!
# Elements as integer expressions

Which integer expression an element denotes, if it denotes one. A level of nesting is used up by
each element that is an operand; the places in a `tokens-count` use up none. The recursion is on the
number of levels that are left.
-/

set_option autoImplicit false

namespace PetriQuery.Grammar

open Document (Element)
open Query (Expr)

/-- Refuses nesting deeper than `limit`. -/
def refuseDepth {α : Type} (limit : Nat) : Traced Fault α :=
  Traced.refuse s!"nesting exceeds the maximum depth of {limit}" (.tooDeep limit)

/-- The constant that an `integer-constant` element denotes by its text. -/
def constant (e : Element) : Traced Fault Expr :=
  let text := Text.trim e.text
  match Numeral.readInt32 text.toList with
  | .ok value => return .literal value
  | .error fault =>
    let reason := fault.message
    Traced.refuse s!"invalid integer constant '{text}': {reason}" (.invalidInteger text)

/-- The token count of the place that a `place` element names. A name without any character is
refused with `message`. -/
def tokensOf (message : String) (e : Element) : Traced Fault Expr :=
  if e.placeName = "" then Traced.refuse message .emptyPlace else return .place e.placeName

/-- The token count of a child of a `tokens-count` element. -/
def countedPlace (e : Element) : Traced Fault Expr :=
  if e.tag = .place then tokensOf "place with empty name in tokens-count" e
  else unexpected e .tokensCount

/-- The sum of the token counts of several places, or the count of a single one. -/
def sumOfPlaces : List Expr → Expr
  | [place] => place
  | places => .chain .sum places

/-- The expression that a `tokens-count` element denotes. -/
def tokensCount (e : Element) : Traced Fault Expr := do
  let places ← (← someChildren 1 e).mapM countedPlace
  return sumOfPlaces places

/-- A difference, whose single operand is negated. -/
def differenceOf : List Expr → Expr
  | [operand] => .chain .difference [.literal 0, operand]
  | operands => .chain .difference operands

/-- The expression that an element denotes, if it nests no deeper than the levels that are left. -/
def toExpr (limit : Nat) : Nat → Element → Traced Fault Expr
  | 0, _ => refuseDepth limit
  | left + 1, e =>
    match e.tag with
    | .integerConstant => constant e
    | .tokensCount => tokensCount e
    | .place => tokensOf "place with empty name" e
    | .integerSum => do
      return .chain .sum (← (← someChildren 2 e).mapM (toExpr limit left))
    | .integerProduct => do
      return .chain .product (← (← someChildren 2 e).mapM (toExpr limit left))
    | .integerDifference => do
      return differenceOf (← (← someChildren 1 e).mapM (toExpr limit left))
    | _ => unexpected e .integerExpression

end PetriQuery.Grammar
