import Mathlib.Data.List.Basic
import PetriQuery.Grammar.Property

/-!
# Children by their positions

The children of an element can be taken by their positions, behind a check of their number. A
position at which there is nothing would end the run without a value and without a failure
(`Halt.missing`). The readers here are those of the grammar but for that: the only child, the two
operands of a pair, of a comparison and of an `until`, the operands of a chain with all that are
behind the first, and the single place of a sum are taken by their positions.

Each of them is the reader that takes the children by their pattern (`lift`), because the number
that the check admits is one at which the positions exist. Where a reader goes into its children,
the readers that it uses for them are lifted in turn, so this is carried from the level below to a
level (`toExprAt_eq`, `toConditionAt_eq`), and from the formulae to a set of properties
(`propertySetAt_eq`).
-/

set_option autoImplicit false

namespace PetriQuery.Grammar

open Document (Element Tag)
open Query (Condition Expr Observable PathQuantifier Sampling)

/-- How a computation that takes things by their positions ends without a value. -/
inductive Halt (ε : Type) where
  /-- With a failure. -/
  | failure (reason : ε)
  /-- At a position past the end. -/
  | missing (position : Nat)

/-- Changes the failure. A missing position stays missing. -/
def Halt.map {ε ε' : Type} (f : ε → ε') : Halt ε → Halt ε'
  | .failure reason => .failure (f reason)
  | .missing position => .missing position

/-- A computation that takes nothing by its position. -/
def lift {ε α : Type} (x : Traced ε α) : Traced (Halt ε) α := x.mapError .failure

/-- How the elements below an element are read by positions. -/
abbrev ReaderAt (α : Type) := Element → Traced (Halt Fault) α

/-! ## Taking by positions -/

/-- The children of an element, if their number is admitted. -/
def admittedChildren (expected : Arity) (e : Element) : Traced (Halt Fault) (List Element) :=
  if expected.admits e.children.length then return e.children else lift (refuseArity expected e)

/-- The item at a position. -/
def itemAt {ε α : Type} (items : List α) (position : Nat) : Traced (Halt ε) α :=
  match items[position]? with
  | some item => return item
  | none => Traced.fail (.missing position)

/-- The items from a position on. -/
def itemsFrom {ε α : Type} (items : List α) (position : Nat) : Traced (Halt ε) (List α) :=
  if position ≤ items.length then return items.drop position
  else Traced.fail (.missing position)

/-- The only child, by its position. -/
def onlyChildAt (e : Element) : Traced (Halt Fault) Element := do
  itemAt (← admittedChildren (.exactly 1) e) 0

/-! ## Expressions -/

/-- The sum of the token counts of several places, or the count of a single one, which is taken by
its position. -/
def sumOfPlacesAt (places : List Expr) : Traced (Halt Fault) Expr :=
  if places.length = 1 then itemAt places 0 else return .chain .sum places

/-- The expression that a `tokens-count` element denotes. -/
def tokensCountAt (e : Element) : Traced (Halt Fault) Expr := do
  sumOfPlacesAt (← (← admittedChildren (.atLeast 1) e).mapM fun place => lift (countedPlace place))

/-- The expression that an element denotes, if it nests no deeper than the levels that are left. -/
def toExprAt (limit : Nat) : Nat → Element → Traced (Halt Fault) Expr
  | 0, _ => lift (refuseDepth limit)
  | left + 1, e =>
    match e.tag with
    | .integerConstant => lift (constant e)
    | .tokensCount => tokensCountAt e
    | .place => lift (tokensOf "place with empty name" e)
    | .integerSum => do
      return .chain .sum (← (← admittedChildren (.atLeast 2) e).mapM (toExprAt limit left))
    | .integerProduct => do
      return .chain .product (← (← admittedChildren (.atLeast 2) e).mapM (toExprAt limit left))
    | .integerDifference => do
      return differenceOf (← (← admittedChildren (.atLeast 1) e).mapM (toExprAt limit left))
    | _ => lift (unexpected e .integerExpression)

/-! ## Formulae -/

/-- What is read of two children. The second one is looked for when the first one has been read. -/
def pairAt (read : ReaderAt Condition) (e : Element) :
    Traced (Halt Fault) (Condition × Condition) := do
  let children ← admittedChildren (.exactly 2) e
  let left ← read (← itemAt children 0)
  let right ← read (← itemAt children 1)
  return (left, right)

/-- A comparison of two expressions. -/
def comparisonAt (expression : ReaderAt Expr) (e : Element) : Traced (Halt Fault) Condition := do
  let children ← admittedChildren (.exactly 2) e
  let left ← expression (← itemAt children 0)
  let right ← expression (← itemAt children 1)
  lift (compareOperands e left right)

/-- The conditions of two or more children, combined from the left. -/
def combineAt (read : ReaderAt Condition) (op : Condition → Condition → Condition) (e : Element) :
    Traced (Halt Fault) Condition := do
  let children ← admittedChildren (.atLeast 2) e
  let start ← read (← itemAt children 0)
  (← itemsFrom children 1).foldlM (fun sofar child => op sofar <$> read child) start

/-- The negation of the only child. -/
def negationAt (read : ReaderAt Condition) (e : Element) : Traced (Halt Fault) Condition := do
  let child ← onlyChildAt e
  match child.tag with
  | .invariant => return (Condition.neg (← read (← onlyChildAt child))).ef
  | .impossibility => return (← read (← onlyChildAt child)).ef
  | .possibility => return .neg (← read (← onlyChildAt child)).ef
  | _ => return .neg (← read child)

/-- The two conditions of an `until` element. -/
def untilOperandsAt (read : ReaderAt Condition) (e : Element) :
    Traced (Halt Fault) (Condition × Condition) := do
  let children ← admittedChildren (.exactly 2) e
  let before ← itemAt children 0
  let reach ← itemAt children 1
  if before.tag = .before ∧ reach.tag = .reach then
    let hold ← read (← onlyChildAt before)
    let goal ← read (← onlyChildAt reach)
    return (hold, goal)
  else
    Traced.refuse s!"'until' requires 'before' and 'reach', found '{before.tag}' and '{reach.tag}'"
      (.failure (.untilOperands before.name reach.name))

/-- A quantifier over paths, with the modality that its only child is. -/
def pathFormulaAt (read : ReaderAt Condition) (quantifier : PathQuantifier) (e : Element) :
    Traced (Halt Fault) Condition := do
  let modality ← onlyChildAt e
  match modality.tag with
  | .next => return .path quantifier .next (← read (← onlyChildAt modality))
  | .always => return .path quantifier .always (← read (← onlyChildAt modality))
  | .eventually => return .path quantifier .eventually (← read (← onlyChildAt modality))
  | .holdUntil =>
    let (before, goal) ← untilOperandsAt read modality
    return .holdUntil quantifier before goal
  | _ => lift (unexpected modality .pathFormula)

/-- The condition that an element denotes, if it nests no deeper than the levels that are left. -/
def toConditionAt (limit : Nat) : Nat → Element → Traced (Halt Fault) Condition
  | 0, _ => lift (refuseDepth limit)
  | left + 1, e =>
    match e.tag with
    | .invariant => do
      return .neg (Condition.neg (← toConditionAt limit left (← onlyChildAt e))).ef
    | .impossibility => do
      return .neg (← toConditionAt limit left (← onlyChildAt e)).ef
    | .possibility => do
      return (← toConditionAt limit left (← onlyChildAt e)).ef
    | .existsPath => pathFormulaAt (toConditionAt limit left) .somePath e
    | .allPaths => pathFormulaAt (toConditionAt limit left) .everyPath e
    | .deadlock => do
      lift (noChildren e)
      return .deadlock
    | .alwaysTrue => do
      lift (noChildren e)
      return .truth true
    | .alwaysFalse => do
      lift (noChildren e)
      return .truth false
    | .negation => negationAt (toConditionAt limit left) e
    | .conjunction => combineAt (toConditionAt limit left) .conj e
    | .disjunction => combineAt (toConditionAt limit left) .disj e
    | .exclusiveDisjunction => do
      let (left', right') ← pairAt (toConditionAt limit left) e
      return exclusive left' right'
    | .implication => do
      let (left', right') ← pairAt (toConditionAt limit left) e
      return .disj (.neg left') right'
    | .equivalence => do
      let (left', right') ← pairAt (toConditionAt limit left) e
      return equivalent left' right'
    | .integerEq | .integerNe | .integerLt | .integerLe | .integerGt | .integerGe =>
      comparisonAt (toExprAt limit left) e
    | _ => lift (unexpected e .booleanFormula)

/-- The condition in a `formula` element. -/
def formulaAt (limit : Nat) (e : Element) : Traced (Halt Fault) Condition := do
  let child ← onlyChildAt e
  match child.tag with
  | .kSafe => return .kSafe (← toExprAt limit limit (← onlyChildAt child))
  | .control => return .control (← toConditionAt limit limit (← onlyChildAt child))
  | _ => toConditionAt limit limit child

/-- The statistical query in a `formula` element, without observables. -/
def statisticalFormulaAt (limit : Nat) (settings : Sampling) (e : Element) :
    Traced (Halt Fault) Condition := do
  let child ← onlyChildAt e
  match child.tag with
  | .eventually =>
    return .probability .eventually settings (← toConditionAt limit limit (← onlyChildAt child)) []
  | .always =>
    return .probability .always settings (← toConditionAt limit limit (← onlyChildAt child)) []
  | _ => lift (unexpected child .statisticalFormula)

/-! ## Properties -/

/-- The observable that a `watch` element names, if it has a name. -/
def observableAt? (limit : Nat) (e : Element) : Traced (Halt Fault) (Option Observable) :=
  match e.get? "name" with
  | none => do
    Traced.note .warn "ignoring observable with no name"
    return none
  | some name => do
    let expression ← toExprAt limit limit (← onlyChildAt e)
    return some (name, expression)

/-- The observables that the children of an `observations` element name. -/
def observablesAt (limit : Nat) (e : Element) : Traced (Halt Fault) (List Observable) := do
  let watches := e.children.filter fun child => child.tag = .watch
  return (← watches.mapM (observableAt? limit)).filterMap id

/-- The statistical query with the observables that an `observations` child gives. -/
def attachObservablesAt (limit : Nat) (id : String) (query : Condition) :
    Option Element → Traced (Halt Failure) Condition
  | none => return query
  | some observations => do
    let found ← (observablesAt limit observations).mapError (.map (failureIn (.observables id)))
    match query.withObservables? found with
    | some query => return query
    | none => Traced.fail (.failure (.ofCause (.grammar (.notStatistical id))))

/-- The query of a property with the given parts, id and formula. -/
def propertyQueryAt (limit : Nat) (parts : Parts) (id : String) (body : Element) :
    Traced (Halt Failure) Condition :=
  match parts.smc? with
  | none => (formulaAt limit body).mapError (.map (failureIn (.formula id)))
  | some smc => do
    let settings ← lift ((settings smc).mapError (failureIn (.settings id)))
    let query ←
      (statisticalFormulaAt limit settings body).mapError (.map (failureIn (.formula id)))
    attachObservablesAt limit id query parts.observations?

/-- The item of a property. -/
def propertyAt (limit : Nat) (e : Element) : Traced (Halt Failure) Item :=
  if e.tag ≠ .property then
    lift (refuseGrammar s!"missing property, found '{e.tag}'" (.notProperty e.name))
  else do
    let parts ← lift (scan e)
    match parts.id?.filter fun id => id ≠ "" with
    | none => lift (refuseGrammar "a query with empty id" .missingId)
    | some id =>
      Traced.note .debug s!"parsing property '{id}'"
      if !parts.isSupported then
        Traced.note .debug s!"property '{id}' is not supported"
        return ⟨id, none, .unsupported⟩
      else
        match parts.formula? with
        | none => lift (refuseGrammar s!"property '{id}' has no formula" (.missingFormula id))
        | some body =>
          let query ← propertyQueryAt limit parts id body
          return ⟨id, some query, .ok⟩

/-- The item of the child at an index of a set of properties. -/
def selectedPropertyAt (options : Options) (child : Element) (index : Nat) :
    Traced (Halt Failure) Item :=
  if options.selects index then
    (propertyAt options.maxDepth child).mapError (.map (Failure.within (.property index)))
  else do
    Traced.note .trace s!"skipping property at index {index}"
    return .skipped

/-- The items of a `property-set` element. -/
def propertySetAt (options : Options) (root : Element) : Traced (Halt Failure) (List Item) := do
  lift (enterSet root)
  let items ← root.children.zipIdx.mapM fun entry => selectedPropertyAt options entry.1 entry.2
  lift leaveSet
  return items

/-! ## Computations that are lifted -/

section Lift

variable {ε ε' α β σ : Type}

@[simp] theorem lift_pure (a : α) : lift (pure a : Traced ε α) = pure a := rfl

@[simp] theorem lift_note (level : Level) (message : String) :
    lift (Traced.note level message : Traced ε Unit) = Traced.note level message := rfl

/-- What takes nothing by its position does so in each of its parts. -/
@[simp] theorem lift_bind (x : Traced ε α) (f : α → Traced ε β) :
    lift (x >>= f) = lift x >>= fun a => lift (f a) := by
  obtain ⟨log, result⟩ := x
  cases result <;> rfl

@[simp] theorem lift_map (f : α → β) (x : Traced ε α) : lift (f <$> x) = f <$> lift x := by
  rw [map_eq_pure_bind, map_eq_pure_bind, lift_bind]
  rfl

@[simp] theorem lift_mapM (f : α → Traced ε β) (items : List α) :
    lift (items.mapM f) = items.mapM fun a => lift (f a) := by
  induction items with
  | nil => rfl
  | cons item items ih => simp only [List.mapM_cons, lift_bind, lift_pure, ih]

@[simp] theorem lift_foldlM (step : σ → α → Traced ε σ) (items : List α) (state : σ) :
    lift (items.foldlM step state) = items.foldlM (fun s a => lift (step s a)) state := by
  induction items generalizing state with
  | nil => rfl
  | cons item items ih => simp only [List.foldlM_cons, lift_bind, ih]

/-- A changed failure is changed alike in the computation that is lifted. -/
@[simp] theorem mapError_map_lift (f : ε → ε') (x : Traced ε α) :
    (lift x).mapError (.map f) = lift (x.mapError f) := by
  obtain ⟨log, result⟩ := x
  cases result <;> rfl

end Lift

/-! ## Positions that exist -/

section Children

variable {α : Type} {expected : Arity} {e : Element}

/-- The children are there if their number is admitted. -/
theorem admittedChildren_of_admits (admits : expected.admits e.children.length = true) :
    admittedChildren expected e = pure e.children := if_pos admits

/-- The element is refused if the number of its children is not admitted. -/
theorem admittedChildren_of_not_admits (refused : expected.admits e.children.length = false) :
    admittedChildren expected e = lift (refuseArity expected e) :=
  if_neg (Bool.eq_false_iff.1 refused)

@[simp] theorem onlyChildAt_eq (e : Element) : onlyChildAt e = lift (onlyChild e) := by
  rw [onlyChildAt, onlyChild]
  split
  · next child children =>
    rw [admittedChildren_of_admits (by rw [children]; rfl), children]
    rfl
  · next other =>
    have refused : (Arity.exactly 1).admits e.children.length = false := by
      apply decide_eq_false
      intro one
      obtain ⟨child, children⟩ := List.length_eq_one_iff.1 one
      exact other child children
    rw [admittedChildren_of_not_admits refused]
    rfl

@[simp] theorem admittedChildren_atLeast (count : Nat) (e : Element) :
    admittedChildren (.atLeast count) e = lift (someChildren count e) := by
  rw [someChildren]
  split
  · next enough =>
    have admits : (Arity.atLeast count).admits e.children.length = true := decide_eq_true enough
    rw [admittedChildren_of_admits admits, lift_pure]
  · next few =>
    have refused : (Arity.atLeast count).admits e.children.length = false := decide_eq_false few
    rw [admittedChildren_of_not_admits refused]

/-- What is done with two children by their positions is what is done with them by pattern, if it is
so for each two elements. -/
theorem admittedChildren_bind_of_two {next : List Element → Traced (Halt Fault) α}
    {next' : Element × Element → Traced Fault α}
    (goesOn : ∀ first second, next [first, second] = lift (next' (first, second))) :
    (admittedChildren (.exactly 2) e >>= next) = lift (twoChildren e >>= next') := by
  rw [twoChildren]
  split
  · next first second children =>
    rw [admittedChildren_of_admits (by rw [children]; rfl), children]
    exact goesOn first second
  · next other =>
    have refused : (Arity.exactly 2).admits e.children.length = false := by
      apply decide_eq_false
      intro two
      obtain ⟨first, second, children⟩ := List.length_eq_two.1 two
      exact other first second children
    rw [admittedChildren_of_not_admits refused]
    rfl

/-- What is done with two or more children by their positions is what is done with the first one and
the others, if it is so for each list of elements. -/
theorem admittedChildren_bind_of_operands {next : List Element → Traced (Halt Fault) α}
    {next' : Element × List Element → Traced Fault α}
    (goesOn : ∀ first rest, next (first :: rest) = lift (next' (first, rest))) :
    (admittedChildren (.atLeast 2) e >>= next) = lift (operands e >>= next') := by
  rw [operands]
  split
  · next first second rest children =>
    have enough : (Arity.atLeast 2).admits e.children.length = true := by
      rw [children]
      exact decide_eq_true (Nat.le_add_left 2 rest.length)
    rw [admittedChildren_of_admits enough, children]
    exact goesOn first (second :: rest)
  · next other =>
    have refused : (Arity.atLeast 2).admits e.children.length = false := by
      apply decide_eq_false
      intro enough
      rcases children : e.children with _ | ⟨first, _ | ⟨second, rest⟩⟩
      · simp [children] at enough
      · simp [children] at enough
      · exact other first second rest children
    rw [admittedChildren_of_not_admits refused]
    rfl

end Children

/-! ## Elements that are read by positions -/

section Expressions

variable (limit : Nat)

/-- A single place is taken by its position if there is one. -/
theorem sumOfPlacesAt_eq (places : List Expr) :
    sumOfPlacesAt places = pure (sumOfPlaces places) := by
  rcases places with _ | ⟨place, _ | ⟨second, rest⟩⟩
  · rfl
  · rfl
  · rfl

theorem tokensCountAt_eq (e : Element) : tokensCountAt e = lift (tokensCount e) := by
  rw [tokensCountAt, tokensCount]
  simp only [admittedChildren_atLeast, sumOfPlacesAt_eq, lift_bind, lift_mapM, lift_pure]

/-- An expression is read by positions as it is read by patterns: the operands are, in whatever
number there are some. -/
theorem toExprAt_eq (left : Nat) (e : Element) :
    toExprAt limit left e = lift (toExpr limit left e) := by
  induction left generalizing e with
  | zero => rfl
  | succ left ih =>
    -- As an equation of readers, since the operands are gone through by a reader.
    have below : toExprAt limit left = fun e => lift (toExpr limit left e) := funext ih
    rw [toExprAt, toExpr]
    cases e.tag with
    | tokensCount => exact tokensCountAt_eq e
    | integerSum | integerProduct | integerDifference =>
      simp only [below, admittedChildren_atLeast, lift_bind, lift_mapM, lift_pure]
    | _ => rfl

end Expressions

section Formulae

variable (read : Reader Condition) (e : Element)

theorem pairAt_eq : pairAt (fun x => lift (read x)) e = lift (pair read e) := by
  refine admittedChildren_bind_of_two fun first second => ?_
  simp only [lift_bind, lift_pure]
  rfl

theorem comparisonAt_eq (expression : Reader Expr) :
    comparisonAt (fun x => lift (expression x)) e = lift (comparison expression e) := by
  refine admittedChildren_bind_of_two fun first second => ?_
  simp only [lift_bind]
  rfl

theorem combineAt_eq (op : Condition → Condition → Condition) :
    combineAt (fun x => lift (read x)) op e = lift (combine read op e) := by
  refine admittedChildren_bind_of_operands fun first rest => ?_
  simp only [lift_bind, lift_foldlM, lift_map]
  rfl

theorem negationAt_eq : negationAt (fun x => lift (read x)) e = lift (negation read e) := by
  rw [negationAt, negation, onlyChildAt_eq, lift_bind]
  refine bind_congr fun child => ?_
  cases child.tag with
  | invariant | impossibility | possibility => simp only [onlyChildAt_eq, lift_bind, lift_pure]
  | _ => simp only [lift_bind, lift_pure]

theorem untilOperandsAt_eq :
    untilOperandsAt (fun x => lift (read x)) e = lift (untilOperands read e) := by
  refine admittedChildren_bind_of_two fun before reach => ?_
  -- Both children are at their positions, so what is left is the judgement of their kinds.
  change ite _ _ _ = lift (ite _ _ _)
  by_cases kinds : before.tag = .before ∧ reach.tag = .reach
  · rw [if_pos kinds, if_pos kinds]
    simp only [lift_bind, lift_pure, onlyChildAt_eq]
  · rw [if_neg kinds, if_neg kinds]
    rfl

theorem pathFormulaAt_eq (quantifier : PathQuantifier) :
    pathFormulaAt (fun x => lift (read x)) quantifier e
      = lift (pathFormula read quantifier e) := by
  rw [pathFormulaAt, pathFormula, onlyChildAt_eq, lift_bind]
  refine bind_congr fun modality => ?_
  cases modality.tag with
  | next | always | eventually => simp only [onlyChildAt_eq, lift_bind, lift_pure]
  | holdUntil => simp only [untilOperandsAt_eq, lift_bind, lift_pure]
  | _ => rfl

variable (limit : Nat)

/-- A formula is read by positions as it is read by patterns: one level takes the children that are
there, and goes into them as the level below does. -/
theorem toConditionAt_eq (left : Nat) :
    toConditionAt limit left e = lift (toCondition limit left e) := by
  induction left generalizing e with
  | zero => rfl
  | succ left ih =>
    have below : toConditionAt limit left = fun e => lift (toCondition limit left e) := funext ih
    have operands : toExprAt limit left = fun e => lift (toExpr limit left e) :=
      funext (toExprAt_eq limit left)
    -- One case for each way in which the children are taken.
    rw [toConditionAt, toCondition, below, operands]
    cases e.tag with
    | invariant | impossibility | possibility =>
      simp only [onlyChildAt_eq, lift_bind, lift_pure]
    | existsPath | allPaths => exact pathFormulaAt_eq _ e _
    | deadlock | alwaysTrue | alwaysFalse => simp only [lift_bind, lift_pure]
    | negation => exact negationAt_eq _ e
    | conjunction | disjunction => exact combineAt_eq _ e _
    | exclusiveDisjunction | implication | equivalence =>
      simp only [pairAt_eq, lift_bind, lift_pure]
    | integerEq | integerNe | integerLt | integerLe | integerGt | integerGe =>
      exact comparisonAt_eq e _
    | _ => rfl

theorem formulaAt_eq : formulaAt limit e = lift (formula limit e) := by
  rw [formulaAt, formula, onlyChildAt_eq, lift_bind]
  refine bind_congr fun child => ?_
  cases child.tag with
  | kSafe => simp only [onlyChildAt_eq, toExprAt_eq, lift_bind, lift_pure]
  | control => simp only [onlyChildAt_eq, toConditionAt_eq, lift_bind, lift_pure]
  | _ => exact toConditionAt_eq child limit limit

theorem statisticalFormulaAt_eq (settings : Sampling) :
    statisticalFormulaAt limit settings e = lift (statisticalFormula limit settings e) := by
  rw [statisticalFormulaAt, statisticalFormula, onlyChildAt_eq, lift_bind]
  refine bind_congr fun child => ?_
  cases child.tag with
  | eventually | always => simp only [onlyChildAt_eq, toConditionAt_eq, lift_bind, lift_pure]
  | _ => rfl

end Formulae

/-! ## Properties that are read by positions -/

section Properties

variable (limit : Nat) (e : Element)

theorem observableAt?_eq : observableAt? limit e = lift (observable? limit e) := by
  rw [observableAt?, observable?]
  cases e.get? "name" with
  | none => rfl
  | some name => simp only [onlyChildAt_eq, toExprAt_eq, lift_bind, lift_pure]

theorem observablesAt_eq : observablesAt limit e = lift (observables limit e) := by
  have each : observableAt? limit = fun watch => lift (observable? limit watch) :=
    funext (observableAt?_eq limit)
  simp only [observablesAt, observables, each, lift_bind, lift_mapM, lift_pure]

theorem attachObservablesAt_eq (id : String) (query : Condition) (observations? : Option Element) :
    attachObservablesAt limit id query observations?
      = lift (attachObservables limit id query observations?) := by
  cases observations? with
  | none => rfl
  | some observations =>
    simp only [attachObservablesAt, attachObservables, observablesAt_eq, mapError_map_lift,
      lift_bind]
    refine bind_congr fun found => ?_
    cases query.withObservables? found with
    | none => rfl
    | some query => rfl

theorem propertyQueryAt_eq (parts : Parts) (id : String) (body : Element) :
    propertyQueryAt limit parts id body = lift (propertyQuery limit parts id body) := by
  rw [propertyQueryAt, propertyQuery]
  cases parts.smc? with
  | none => simp only [formulaAt_eq, mapError_map_lift]
  | some smc =>
    simp only [statisticalFormulaAt_eq, attachObservablesAt_eq, mapError_map_lift, lift_bind]

theorem propertyAt_eq : propertyAt limit e = lift (property limit e) := by
  rw [propertyAt, property]
  by_cases kind : e.tag = .property
  -- The scan takes no child by its position, so the two could differ in the query alone.
  · rw [if_neg (not_not_intro kind), if_neg (not_not_intro kind), lift_bind]
    refine bind_congr fun parts => ?_
    cases parts.id?.filter fun id => id ≠ "" with
    | none => rfl
    | some id =>
      simp only [lift_bind, lift_note]
      refine bind_congr fun _ => ?_
      cases parts.isSupported with
      | false => rfl
      | true =>
        cases parts.formula? with
        | none => rfl
        | some body =>
          change propertyQueryAt limit parts id body >>= _ = lift (propertyQuery _ _ _ _ >>= _)
          rw [propertyQueryAt_eq, lift_bind]
          rfl
  · rw [if_pos kind, if_pos kind]

theorem selectedPropertyAt_eq (options : Options) (index : Nat) :
    selectedPropertyAt options e index = lift (selectedProperty options e index) := by
  rw [selectedPropertyAt, selectedProperty]
  split
  · rw [propertyAt_eq, mapError_map_lift]
  · simp only [lift_bind, lift_note, lift_pure]

/-- A set of properties is read by positions as it is read by patterns. -/
theorem propertySetAt_eq (options : Options) (root : Element) :
    propertySetAt options root = lift (propertySet options root) := by
  simp only [propertySetAt, propertySet, selectedPropertyAt_eq, lift_bind, lift_mapM, lift_pure]

end Properties

end PetriQuery.Grammar
