import Mathlib.Algebra.Ring.Int.Defs
import PetriQuery.Query.Condition

/-!
# The meaning of conditions

The meaning of expressions and conditions over a transition system whose states give each place a
number of tokens. A system says which of the runs from a state are its paths: all of them, the
maximal ones, the infinite ones or any others. A run may end, so a path need not have a second
state; a state's successors are the second states of the paths that have one.

What the properties of a whole net and the statistical queries mean is part of the system, since
they are no formulae of computation tree logic.

Main facts: a successor is one step away, and where every step begins a path the successors are the
states one step away (`Successor.step`, `successor_iff_step`); a path on which a property does not
always hold is one on which it sometimes fails (`Run.eventually_not_iff`).
-/

set_option autoImplicit false

namespace PetriQuery.Query

universe u

/-! ## Runs and systems -/

/-- A run of a relation from a state: the states at the positions of the run, as many as it has. -/
structure Run {State : Type u} (step : State → State → Prop) (s : State) where
  at? : Nat → Option State
  start : at? 0 = some s
  follows : ∀ n t, at? (n + 1) = some t → ∃ u, at? n = some u ∧ step u t

namespace Run

variable {State : Type u} {step : State → State → Prop} {s : State}

/-- The run passes through the state. -/
def Visits (π : Run step s) (t : State) : Prop := ∃ n, π.at? n = some t

/-- In every state of the run. -/
def Always (π : Run step s) (P : State → Prop) : Prop := ∀ t, π.Visits t → P t

/-- In some state of the run. -/
def Eventually (π : Run step s) (P : State → Prop) : Prop := ∃ t, π.Visits t ∧ P t

/-- In some state of the run the second property holds, and the first one in all states before
it. -/
def Until (π : Run step s) (P Q : State → Prop) : Prop :=
  ∃ n t, π.at? n = some t ∧ Q t ∧ ∀ m < n, ∀ u, π.at? m = some u → P u

/-- Sometimes not is not always. -/
theorem eventually_not_iff (π : Run step s) (P : State → Prop) :
    π.Eventually (fun t => ¬ P t) ↔ ¬ π.Always P := by
  constructor
  · rintro ⟨t, visited, fails⟩ always
    exact fails (always t visited)
  · intro fails
    obtain ⟨t, ht⟩ := Classical.not_forall.1 fails
    obtain ⟨visited, fails⟩ := Classical.not_imp.1 ht
    exact ⟨t, visited, fails⟩

end Run

/-- A transition system over the markings of a net, with the choice of its paths. -/
structure System where
  State : Type u
  step : State → State → Prop
  /-- How many tokens a place has in a state. -/
  tokens : State → String → Int
  /-- Which runs from a state are paths. -/
  IsPath : (s : State) → Run step s → Prop
  /-- Whether a property of a whole net or a statistical query holds in a state. -/
  Special : Condition → State → Prop

namespace System

variable (M : System.{u})

/-- The second state of a path. -/
def Successor (s t : M.State) : Prop := ∃ π, M.IsPath s π ∧ π.at? 1 = some t

/-- No transition leads out of the state. -/
def Dead (s : M.State) : Prop := ∀ t, ¬ M.step s t

/-- Along one path from the state or along every path. -/
def Along (quantifier : PathQuantifier) (s : M.State) (P : Run M.step s → Prop) : Prop :=
  match quantifier with
  | .somePath => ∃ π, M.IsPath s π ∧ P π
  | .everyPath => ∀ π, M.IsPath s π → P π

/-- In one successor of the state or in every successor. -/
def Nearby (quantifier : PathQuantifier) (s : M.State) (P : M.State → Prop) : Prop :=
  match quantifier with
  | .somePath => ∃ t, M.Successor s t ∧ P t
  | .everyPath => ∀ t, M.Successor s t → P t

/-- A successor is one step away. -/
theorem Successor.step {s t : M.State} (h : M.Successor s t) : M.step s t := by
  obtain ⟨π, -, second⟩ := h
  obtain ⟨u, first, step⟩ := π.follows 0 t second
  have same : u = s := Option.some.inj (first.symm.trans π.start)
  exact same ▸ step

/-- Where every step begins a path, the successors are the states one step away. -/
theorem successor_iff_step
    (begins : ∀ s t, M.step s t → ∃ π, M.IsPath s π ∧ π.at? 1 = some t) (s t : M.State) :
    M.Successor s t ↔ M.step s t :=
  ⟨Successor.step M, begins s t⟩

/-- Some successor has a property iff some path has a second state with it. -/
theorem nearby_somePath_iff {s : M.State} {P : M.State → Prop} :
    M.Nearby .somePath s P ↔ ∃ π, M.IsPath s π ∧ ∃ t, π.at? 1 = some t ∧ P t := by
  constructor
  · rintro ⟨t, ⟨π, path, second⟩, holds⟩
    exact ⟨π, path, t, second, holds⟩
  · rintro ⟨π, path, t, second, holds⟩
    exact ⟨t, ⟨π, path, second⟩, holds⟩

/-- Every successor has a property iff every path with a second state has one with it. -/
theorem nearby_everyPath_iff {s : M.State} {P : M.State → Prop} :
    M.Nearby .everyPath s P ↔ ∀ π, M.IsPath s π → ∀ t, π.at? 1 = some t → P t := by
  constructor
  · intro all π path t second
    exact all t ⟨π, path, second⟩
  · rintro all t ⟨π, path, second⟩
    exact all π path t second

end System

/-! ## Expressions -/

/-- What the operands of a chain come to. A difference is taken from the left to the right. -/
def Operator.combine : Operator → List Int → Int
  | .sum, operands => operands.sum
  | .product, operands => operands.prod
  | .difference, [] => 0
  | .difference, first :: rest => rest.foldl (· - ·) first

mutual

/-- The value of an expression in a marking. -/
def Expr.value (tokens : String → Int) : Expr → Int
  | .literal value => value.toInt
  | .place name => tokens name
  | .chain op operands => op.combine (Expr.values tokens operands)

/-- The values of the operands of a chain. -/
def Expr.values (tokens : String → Int) : List Expr → List Int
  | [] => []
  | operand :: rest => operand.value tokens :: Expr.values tokens rest

end

/-! ## Conditions -/

/-- The relation between two integers. -/
def Relation.Holds : Relation → Int → Int → Prop
  | .equal, m, n => m = n
  | .notEqual, m, n => m ≠ n
  | .less, m, n => m < n
  | .lessEqual, m, n => m ≤ n

/-- The condition holds in the state. -/
def Condition.Holds (M : System.{u}) : Condition → M.State → Prop
  | .truth value, _ => value = true
  | .deadlock, s => M.Dead s
  | .neg body, s => ¬ body.Holds M s
  | .conj left right, s => left.Holds M s ∧ right.Holds M s
  | .disj left right, s => left.Holds M s ∨ right.Holds M s
  | .compare relation left right, s =>
    relation.Holds (left.value (M.tokens s)) (right.value (M.tokens s))
  | .path quantifier .next body, s => M.Nearby quantifier s (body.Holds M)
  | .path quantifier .always body, s => M.Along quantifier s fun π => π.Always (body.Holds M)
  | .path quantifier .eventually body, s =>
    M.Along quantifier s fun π => π.Eventually (body.Holds M)
  | .holdUntil quantifier before goal, s =>
    M.Along quantifier s fun π => π.Until (before.Holds M) (goal.Holds M)
  | .kSafe bound, s => M.Special (.kSafe bound) s
  | .control body, s => M.Special (.control body) s
  | .probability goal settings body observables, s =>
    M.Special (.probability goal settings body observables) s

end PetriQuery.Query
