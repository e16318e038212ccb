import PetriQuery.Grammar.Sampling
import PetriQuery.Proofs.Document.Depth
import PetriQuery.Proofs.Grammar.Children

/-!
# Readers under two limits

What a reader does with more levels left is what it does with fewer, unless it stops there because
no level is left (`SameUnless`). The two runs have the same end then, and the same log. Which limit
a run is under plays no part, but for the number that it names when it stops.

A computation goes on only behind parts that succeed, so the relation is carried from the parts to
the whole: the runs part ways at the first part that stops, and with that part the whole stops. One
level of a reader (`conditionLevel`, `expressionLevel`) has the readers of the level below for its
parts, and uses them for elements alone that nest less deep than its own.
-/

set_option autoImplicit false

namespace PetriQuery

namespace Traced

variable {ε ε' α β σ : Type} {stops : ε → Prop}

/-- The second computation is the first one, unless that one fails for a reason of the given
kind. -/
def SameUnless (stops : ε → Prop) (x y : Traced ε α) : Prop :=
  y = x ∨ ∃ failure, x.result = .error failure ∧ stops failure

theorem sameUnless_self (x : Traced ε α) : SameUnless stops x x := Or.inl rfl

namespace SameUnless

/-- A computation that fails for no reason of the kind is the other one. -/
theorem eq {x y : Traced ε α} (h : SameUnless stops x y)
    (goesOn : ∀ failure, x.result = .error failure → ¬ stops failure) : y = x := by
  rcases h with same | ⟨failure, failed, stop⟩
  · exact same
  · exact absurd stop (goesOn failure failed)

/-- Computations that go on alike from the value of the first part are alike as wholes. -/
theorem bind {x y : Traced ε α} {f g : α → Traced ε β} (first : SameUnless stops x y)
    (next : ∀ a, x.result = .ok a → SameUnless stops (f a) (g a)) :
    SameUnless stops (x >>= f) (y >>= g) := by
  rcases first with rfl | ⟨failure, failed, stop⟩
  -- The first parts are the same, so the second ones start from the same value or do not start.
  · cases ends : y.result with
    | error failure =>
      rw [bind_of_error f ends, bind_of_error g ends]
      exact sameUnless_self _
    | ok a =>
      rcases next a ends with same | ⟨failure, failed, stop⟩
      · left
        apply Traced.ext
        · rw [log_bind_of_ok f ends, log_bind_of_ok g ends, same]
        · rw [result_bind_of_ok f ends, result_bind_of_ok g ends, same]
      · exact Or.inr ⟨failure, (result_bind_of_ok f ends).trans failed, stop⟩
  · right
    rw [bind_of_error f failed]
    exact ⟨failure, rfl, stop⟩

theorem map {x y : Traced ε α} (h : SameUnless stops x y) (f : α → β) :
    SameUnless stops (f <$> x) (f <$> y) := by
  rw [map_eq_pure_bind, map_eq_pure_bind]
  exact h.bind fun a _ => sameUnless_self (pure (f a))

/-- A changed failure is of a kind if the failure was of one that is changed into it. -/
theorem mapError {x y : Traced ε α} (h : SameUnless stops x y) {stops' : ε' → Prop} {f : ε → ε'}
    (carries : ∀ failure, stops failure → stops' (f failure)) :
    SameUnless stops' (x.mapError f) (y.mapError f) := by
  rcases h with rfl | ⟨failure, failed, stop⟩
  · exact sameUnless_self _
  · right
    rw [result_mapError, failed]
    exact ⟨f failure, rfl, carries failure stop⟩

theorem mapM {f g : α → Traced ε β} {items : List α}
    (each : ∀ a ∈ items, SameUnless stops (f a) (g a)) :
    SameUnless stops (items.mapM f) (items.mapM g) := by
  induction items with
  | nil => exact sameUnless_self _
  | cons item items ih =>
    obtain ⟨head, tail⟩ := List.forall_mem_cons.1 each
    rw [List.mapM_cons, List.mapM_cons]
    exact head.bind fun b _ => (ih tail).bind fun bs _ => sameUnless_self _

theorem foldlM {step step' : σ → α → Traced ε σ} {items : List α}
    (each : ∀ a ∈ items, ∀ state, SameUnless stops (step state a) (step' state a)) (state : σ) :
    SameUnless stops (items.foldlM step state) (items.foldlM step' state) := by
  induction items generalizing state with
  | nil => exact sameUnless_self _
  | cons item items ih =>
    obtain ⟨head, tail⟩ := List.forall_mem_cons.1 each
    rw [List.foldlM_cons, List.foldlM_cons]
    exact (head state).bind fun next _ => ih tail next

end SameUnless

end Traced

namespace Grammar

open Document (Element)
open Document.Element (depth_lt_of_mem)
open Query (Condition Expr Observable PathQuantifier Sampling)
open Traced (SameUnless sameUnless_self)

/-! ## Children nest less deep -/

theorem depth_lt_of_onlyChild {e child : Element} (found : (onlyChild e).result = .ok child) :
    child.depth < e.depth :=
  depth_lt_of_mem (onlyChild_eq_ok_iff.1 found ▸ List.mem_singleton_self child)

theorem depth_lt_of_twoChildren {e first second : Element}
    (found : (twoChildren e).result = .ok (first, second)) :
    first.depth < e.depth ∧ second.depth < e.depth := by
  have children := twoChildren_eq_ok_iff.1 found
  constructor
  · exact depth_lt_of_mem (by simp [children])
  · exact depth_lt_of_mem (by simp [children])

/-! ## Formulae over readers -/

/-- The readers are the same, unless the first one stops, for elements that nest less deep than a
number. -/
def SameWithin {α : Type} (stops : Fault → Prop) (depth : Nat) (read read' : Reader α) : Prop :=
  ∀ x : Element, x.depth < depth → SameUnless stops (read x) (read' x)

theorem SameWithin.mono {α : Type} {stops : Fault → Prop} {depth depth' : Nat}
    {read read' : Reader α} (h : SameWithin stops depth read read') (le : depth' ≤ depth) :
    SameWithin stops depth' read read' := fun x less => h x (Nat.lt_of_lt_of_le less le)

section Readers

variable {α : Type} {stops : Fault → Prop} {read read' : Reader α} {e : Element}
  (each : SameWithin stops e.depth read read')

include each

/-- What is read of the only child, and changed. -/
theorem sameUnless_ofOnlyChild {β : Type} (f : α → β) :
    SameUnless stops (do return f (← read (← onlyChild e)))
      (do return f (← read' (← onlyChild e))) :=
  (sameUnless_self (onlyChild e)).bind fun child found =>
    (each child (depth_lt_of_onlyChild found)).bind fun _ _ => sameUnless_self _

/-- What is read of the only child of a child. -/
theorem sameUnless_ofGrandchild {child : Element} (found : (onlyChild e).result = .ok child)
    {β : Type} (f : α → β) :
    SameUnless stops (do return f (← read (← onlyChild child)))
      (do return f (← read' (← onlyChild child))) :=
  sameUnless_ofOnlyChild (each.mono (Nat.le_of_lt (depth_lt_of_onlyChild found))) f

/-- What is read of the children, if there are enough of them, and combined. -/
theorem sameUnless_ofChildren {β : Type} (count : Nat) (f : List α → β) :
    SameUnless stops (do return f (← (← someChildren count e).mapM read))
      (do return f (← (← someChildren count e).mapM read')) := by
  refine (sameUnless_self (someChildren count e)).bind fun children found => ?_
  obtain ⟨-, rfl⟩ := someChildren_eq_ok_iff.1 found
  exact (SameUnless.mapM fun child member => each child (depth_lt_of_mem member)).bind
    fun _ _ => sameUnless_self _

end Readers

section Conditions

variable {stops : Fault → Prop} {read read' : Reader Condition} {e : Element}
  (each : SameWithin stops e.depth read read')

include each

theorem sameUnless_pair : SameUnless stops (pair read e) (pair read' e) := by
  refine (sameUnless_self (twoChildren e)).bind fun children found => ?_
  obtain ⟨first, second⟩ := depth_lt_of_twoChildren found
  exact (each _ first).bind fun _ _ => (each _ second).bind fun _ _ => sameUnless_self _

theorem sameUnless_combine (op : Condition → Condition → Condition) :
    SameUnless stops (combine read op e) (combine read' op e) := by
  refine (sameUnless_self (operands e)).bind fun children found => ?_
  obtain ⟨-, children⟩ := operands_eq_ok_iff.1 found
  have below {child : Element} (member : child ∈ e.children) := each child (depth_lt_of_mem member)
  rw [children] at below
  refine (below List.mem_cons_self).bind fun start _ => ?_
  exact SameUnless.foldlM
    (fun child member sofar => (below (List.mem_cons_of_mem _ member)).map (op sofar)) start

theorem sameUnless_negation : SameUnless stops (negation read e) (negation read' e) := by
  refine (sameUnless_self (onlyChild e)).bind fun child found => ?_
  cases child.tag with
  | invariant => exact sameUnless_ofGrandchild each found fun c => (Condition.neg c).ef
  | impossibility => exact sameUnless_ofGrandchild each found Condition.ef
  | possibility => exact sameUnless_ofGrandchild each found fun c => Condition.neg c.ef
  | _ => exact (each child (depth_lt_of_onlyChild found)).bind fun c _ => sameUnless_self _

theorem sameUnless_untilOperands :
    SameUnless stops (untilOperands read e) (untilOperands read' e) := by
  refine (sameUnless_self (twoChildren e)).bind ?_
  rintro ⟨before, reach⟩ found
  obtain ⟨first, second⟩ := depth_lt_of_twoChildren found
  simp only
  by_cases kinds : before.tag = .before ∧ reach.tag = .reach
  · rw [if_pos kinds, if_pos kinds]
    refine (sameUnless_self (onlyChild before)).bind fun child found' => ?_
    refine (each child (Nat.lt_trans (depth_lt_of_onlyChild found') first)).bind fun hold _ => ?_
    exact sameUnless_ofOnlyChild (each.mono (Nat.le_of_lt second)) fun goal => (hold, goal)
  · rw [if_neg kinds, if_neg kinds]
    exact sameUnless_self _

theorem sameUnless_pathFormula (quantifier : PathQuantifier) :
    SameUnless stops (pathFormula read quantifier e) (pathFormula read' quantifier e) := by
  refine (sameUnless_self (onlyChild e)).bind fun modality found => ?_
  cases modality.tag with
  | next | always | eventually => exact sameUnless_ofGrandchild each found _
  | holdUntil =>
    have below := each.mono (Nat.le_of_lt (depth_lt_of_onlyChild found))
    exact (sameUnless_untilOperands below).bind fun _ _ => sameUnless_self _
  | _ => exact sameUnless_self _

end Conditions

theorem sameUnless_comparison {stops : Fault → Prop} {read read' : Reader Expr} {e : Element}
    (each : SameWithin stops e.depth read read') :
    SameUnless stops (comparison read e) (comparison read' e) := by
  refine (sameUnless_self (twoChildren e)).bind fun children found => ?_
  obtain ⟨first, second⟩ := depth_lt_of_twoChildren found
  exact (each _ first).bind fun _ _ => (each _ second).bind fun _ _ => sameUnless_self _

/-! ## One level -/

/-- The expression that an element denotes, where the expressions one level below it are read in the
given way. -/
def expressionLevel (expressions : Reader Expr) (e : Element) : Traced Fault Expr :=
  match e.tag with
  | .integerConstant => constant e
  | .tokensCount => tokensCount e
  | .place => tokensOf "place with empty name" e
  | .integerSum => do
    return .chain .sum (← (← someChildren 2 e).mapM expressions)
  | .integerProduct => do
    return .chain .product (← (← someChildren 2 e).mapM expressions)
  | .integerDifference => do
    return differenceOf (← (← someChildren 1 e).mapM expressions)
  | _ => unexpected e .integerExpression

/-- The condition that an element denotes, where the formulae and the expressions one level below it
are read in the given ways. -/
def conditionLevel (formulae : Reader Condition) (expressions : Reader Expr) (e : Element) :
    Traced Fault Condition :=
  match e.tag with
  | .invariant => do
    return .neg (Condition.neg (← formulae (← onlyChild e))).ef
  | .impossibility => do
    return .neg (← formulae (← onlyChild e)).ef
  | .possibility => do
    return (← formulae (← onlyChild e)).ef
  | .existsPath => pathFormula formulae .somePath e
  | .allPaths => pathFormula formulae .everyPath e
  | .deadlock => do
    noChildren e
    return .deadlock
  | .alwaysTrue => do
    noChildren e
    return .truth true
  | .alwaysFalse => do
    noChildren e
    return .truth false
  | .negation => negation formulae e
  | .conjunction => combine formulae .conj e
  | .disjunction => combine formulae .disj e
  | .exclusiveDisjunction => do
    let (left', right') ← pair formulae e
    return exclusive left' right'
  | .implication => do
    let (left', right') ← pair formulae e
    return .disj (.neg left') right'
  | .equivalence => do
    let (left', right') ← pair formulae e
    return equivalent left' right'
  | .integerEq | .integerNe | .integerLt | .integerLe | .integerGt | .integerGe =>
    comparison expressions e
  | _ => unexpected e .booleanFormula

/-- With a level left, an expression is read with the readers that have one level less. -/
theorem toExpr_succ (limit left : Nat) (e : Element) :
    toExpr limit (left + 1) e = expressionLevel (toExpr limit left) e := rfl

/-- With a level left, a formula is read with the readers that have one level less. -/
theorem toCondition_succ (limit left : Nat) (e : Element) :
    toCondition limit (left + 1) e
      = conditionLevel (toCondition limit left) (toExpr limit left) e := rfl

section Level

variable {stops : Fault → Prop} {formulae formulae' : Reader Condition}
  {expressions expressions' : Reader Expr} {e : Element}

theorem sameUnless_expressionLevel (each : SameWithin stops e.depth expressions expressions') :
    SameUnless stops (expressionLevel expressions e) (expressionLevel expressions' e) := by
  unfold expressionLevel
  cases e.tag with
  | integerSum | integerProduct | integerDifference => exact sameUnless_ofChildren each _ _
  | _ => exact sameUnless_self _

theorem sameUnless_conditionLevel (each : SameWithin stops e.depth formulae formulae')
    (each' : SameWithin stops e.depth expressions expressions') :
    SameUnless stops (conditionLevel formulae expressions e)
      (conditionLevel formulae' expressions' e) := by
  unfold conditionLevel
  cases e.tag with
  | invariant | impossibility | possibility => exact sameUnless_ofOnlyChild each _
  | existsPath | allPaths => exact sameUnless_pathFormula each _
  | negation => exact sameUnless_negation each
  | conjunction | disjunction => exact sameUnless_combine each _
  | exclusiveDisjunction | implication | equivalence =>
    exact (sameUnless_pair each).bind fun _ _ => sameUnless_self _
  | integerEq | integerNe | integerLt | integerLe | integerGt | integerGe =>
    exact sameUnless_comparison each'
  | _ => exact sameUnless_self _

end Level

/-! ## Above the first level -/

/-- The condition in a `formula` element, where formulae and expressions are read in the given
ways. -/
def formulaOver (formulae : Reader Condition) (expressions : Reader Expr) (e : Element) :
    Traced Fault Condition := do
  let child ← onlyChild e
  match child.tag with
  | .kSafe => return .kSafe (← expressions (← onlyChild child))
  | .control => return .control (← formulae (← onlyChild child))
  | _ => formulae child

/-- The statistical query in a `formula` element, where formulae are read in the given way. -/
def statisticalFormulaOver (formulae : Reader Condition) (settings : Sampling) (e : Element) :
    Traced Fault Condition := do
  let child ← onlyChild e
  match child.tag with
  | .eventually => return .probability .eventually settings (← formulae (← onlyChild child)) []
  | .always => return .probability .always settings (← formulae (← onlyChild child)) []
  | _ => unexpected child .statisticalFormula

/-- The observable that a `watch` element names, where expressions are read in the given way. -/
def observableOver? (expressions : Reader Expr) (e : Element) : Traced Fault (Option Observable) :=
  match e.get? "name" with
  | none => do
    Traced.note .warn "ignoring observable with no name"
    return none
  | some name => do
    let expression ← expressions (← onlyChild e)
    return some (name, expression)

/-- The observables in an `observations` element, where expressions are read in the given way. -/
def observablesOver (expressions : Reader Expr) (e : Element) :
    Traced Fault (List Observable) := do
  let watches := e.children.filter fun child => child.tag = .watch
  return (← watches.mapM (observableOver? expressions)).filterMap id

/-- A `formula` element is read with the readers that have all levels left. -/
theorem formula_eq_over (limit : Nat) (e : Element) :
    formula limit e = formulaOver (toCondition limit limit) (toExpr limit limit) e := rfl

theorem statisticalFormula_eq_over (limit : Nat) (settings : Sampling) (e : Element) :
    statisticalFormula limit settings e
      = statisticalFormulaOver (toCondition limit limit) settings e := rfl

theorem observables_eq_over (limit : Nat) (e : Element) :
    observables limit e = observablesOver (toExpr limit limit) e := rfl

section Over

variable {stops : Fault → Prop} {formulae formulae' : Reader Condition}
  {expressions expressions' : Reader Expr} {e : Element}

theorem sameUnless_formulaOver (each : SameWithin stops e.depth formulae formulae')
    (each' : SameWithin stops e.depth expressions expressions') :
    SameUnless stops (formulaOver formulae expressions e)
      (formulaOver formulae' expressions' e) := by
  refine (sameUnless_self (onlyChild e)).bind fun child found => ?_
  cases child.tag with
  | kSafe => exact sameUnless_ofGrandchild each' found Condition.kSafe
  | control => exact sameUnless_ofGrandchild each found Condition.control
  | _ => exact each child (depth_lt_of_onlyChild found)

theorem sameUnless_statisticalFormulaOver (each : SameWithin stops e.depth formulae formulae')
    (settings : Sampling) :
    SameUnless stops (statisticalFormulaOver formulae settings e)
      (statisticalFormulaOver formulae' settings e) := by
  refine (sameUnless_self (onlyChild e)).bind fun child found => ?_
  cases child.tag with
  | eventually | always => exact sameUnless_ofGrandchild each found _
  | _ => exact sameUnless_self _

theorem sameUnless_observableOver? (each : SameWithin stops e.depth expressions expressions') :
    SameUnless stops (observableOver? expressions e) (observableOver? expressions' e) := by
  rw [observableOver?, observableOver?]
  cases e.get? "name" with
  | none => exact sameUnless_self _
  | some name => exact sameUnless_ofOnlyChild each fun x => some (name, x)

theorem sameUnless_observablesOver (each : SameWithin stops e.depth expressions expressions') :
    SameUnless stops (observablesOver expressions e) (observablesOver expressions' e) := by
  refine (SameUnless.mapM fun watch member => sameUnless_observableOver? ?_).bind
    fun _ _ => sameUnless_self _
  exact each.mono (Nat.le_of_lt (depth_lt_of_mem (List.mem_of_mem_filter member)))

end Over

/-! ## More levels -/

/-- The fault says that the limit is exceeded. -/
abbrev Exceeds (limit : Nat) (fault : Fault) : Prop := fault = .tooDeep limit

section Levels

variable {limit limit' : Nat}

/-- With more levels left, an element is read as the same expression, unless it nests too deep for
fewer. -/
theorem sameUnless_toExpr {left left' : Nat} (le : left ≤ left') (e : Element) :
    SameUnless (Exceeds limit) (toExpr limit left e) (toExpr limit' left' e) := by
  induction left generalizing left' e with
  -- Without a level the first run stops, whatever the element is and the second run does.
  | zero => exact Or.inr ⟨_, rfl, rfl⟩
  | succ left ih =>
    obtain ⟨left', rfl⟩ : ∃ below, left' = below + 1 :=
      Nat.exists_eq_add_one.2 (Nat.lt_of_lt_of_le (Nat.succ_pos left) le)
    rw [toExpr_succ, toExpr_succ]
    exact sameUnless_expressionLevel fun x _ => ih (Nat.le_of_succ_le_succ le) x

/-- With more levels left, an element is read as the same condition, unless it nests too deep for
fewer. -/
theorem sameUnless_toCondition {left left' : Nat} (le : left ≤ left') (e : Element) :
    SameUnless (Exceeds limit) (toCondition limit left e) (toCondition limit' left' e) := by
  induction left generalizing left' e with
  | zero => exact Or.inr ⟨_, rfl, rfl⟩
  | succ left ih =>
    obtain ⟨left', rfl⟩ : ∃ below, left' = below + 1 :=
      Nat.exists_eq_add_one.2 (Nat.lt_of_lt_of_le (Nat.succ_pos left) le)
    have below := Nat.le_of_succ_le_succ le
    rw [toCondition_succ, toCondition_succ]
    exact sameUnless_conditionLevel (fun x _ => ih below x) fun x _ => sameUnless_toExpr below x

end Levels

end Grammar

end PetriQuery
