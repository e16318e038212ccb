import PetriQuery.Json
import PetriQuery.Query.Condition

/-!
# Conditions as JSON

The JSON form of expressions and conditions. A node with operands is an object with one member: its
key names the node and its value holds the operands, two or more of them as an array. The settings
of a statistical query are an object with ten members in a fixed order.
-/

set_option autoImplicit false

namespace PetriQuery.Query

/-- A node with its name and its contents. -/
def tagged (name : String) (contents : Json) : Json := .object [(name, contents)]

/-- The name of an operator. -/
def Operator.name : Operator → String
  | .sum => "Plus"
  | .product => "Multiply"
  | .difference => "Subtract"

mutual

/-- The JSON form of an expression. -/
def Expr.toJson : Expr → Json
  | .literal value => tagged "Literal" (.int value.toInt)
  | .place name => tagged "Identifier" (.string name)
  | .chain op operands => tagged op.name (.array (Expr.toJsonList operands))

/-- The JSON forms of a list of operands. -/
def Expr.toJsonList : List Expr → List Json
  | [] => []
  | operand :: rest => operand.toJson :: Expr.toJsonList rest

end

/-- The JSON form of settings. -/
def Sampling.toJson (s : Sampling) : Json :=
  .object
    [("time_bound", .int s.timeBound.toInt),
      ("step_bound", .int s.stepBound.toInt),
      ("false_positives", .fraction s.falsePositives),
      ("false_negatives", .fraction s.falseNegatives),
      ("indifference_region_up", .fraction s.indifferenceUp),
      ("indifference_region_down", .fraction s.indifferenceDown),
      ("confidence", .fraction s.confidence),
      ("estimation_interval_width", .fraction s.intervalWidth),
      ("compare_to_float", .bool s.isTest),
      ("geq_than", .fraction s.threshold)]

/-- The name of a comparison. -/
def Relation.name : Relation → String
  | .equal => "Equal"
  | .notEqual => "NotEqual"
  | .less => "LessThan"
  | .lessEqual => "LessThanOrEqual"

/-- The name of a quantifier. -/
def PathQuantifier.name : PathQuantifier → String
  | .somePath => "Exists"
  | .everyPath => "All"

/-- The name of a modality. -/
def Modality.name : Modality → String
  | .next => "Next"
  | .always => "Globally"
  | .eventually => "Finally"

/-- The name of a goal. -/
def RunGoal.name : RunGoal → String
  | .eventually => "Finally"
  | .always => "Globally"

/-- The JSON form of a condition. -/
def Condition.toJson : Condition → Json
  | .truth value => tagged "Boolean" (.bool value)
  | .deadlock => .string "Deadlock"
  | .neg body => tagged "Not" body.toJson
  | .conj left right => tagged "And" (.array [left.toJson, right.toJson])
  | .disj left right => tagged "Or" (.array [left.toJson, right.toJson])
  | .compare relation left right => tagged relation.name (.array [left.toJson, right.toJson])
  | .path quantifier modality body => tagged (quantifier.name ++ modality.name) body.toJson
  | .holdUntil quantifier before goal =>
    tagged (quantifier.name ++ "Until") (.array [before.toJson, goal.toJson])
  | .kSafe bound => tagged "KSafe" bound.toJson
  | .control body => tagged "Control" body.toJson
  | .probability goal settings body observables =>
    tagged ("Probability" ++ goal.name)
      (.object
        [("settings", settings.toJson),
          ("condition", body.toJson),
          ("observables",
            .array (observables.map fun observable =>
              .array [.string observable.1, observable.2.toJson]))])

end PetriQuery.Query
