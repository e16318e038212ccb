import PetriQuery.Proofs.Limit.Raising
import PetriQuery.Proofs.Truthfulness

/-!
# Depths that are reached

The readers of formulae and expressions count how deep they are, in machine words, and go one level
deeper if the limit admits it (`descend`). The limit is an option and can be any word. What keeps
the readers from going deep, and the count from overflowing, is that they follow the elements of a
document, and those nest only so deep: each level that is counted is at least one level of elements,
and three more are above the first one, the set of properties, a property, and its formula or its
observables (`Called.depth_le`).

Main result: `Session.nesting_bounds_depths`.
-/

set_option autoImplicit false

namespace PetriQuery

open Document (Element)
open Traced (SameUnless sameUnless_self)

namespace Grammar

open Query (Condition Expr Sampling)

/-! ## Counting depths -/

/-- The depth one level below a depth, if the limit admits that level. -/
def descend (limit depth : UInt64) : Traced Fault UInt64 :=
  if limit ≤ depth then refuseDepth limit.toNat else return depth + 1

/-- The condition that an element denotes at a depth. -/
def conditionAt (limit depth : UInt64) : Reader Condition :=
  toCondition limit.toNat (limit.toNat - depth.toNat)

/-- The expression that an element denotes at a depth. -/
def expressionAt (limit depth : UInt64) : Reader Expr :=
  toExpr limit.toNat (limit.toNat - depth.toNat)

section Descend

variable {limit depth : UInt64}

theorem descend_of_le (le : limit ≤ depth) : descend limit depth = refuseDepth limit.toNat :=
  if_pos le

theorem descend_of_lt (less : depth < limit) : descend limit depth = pure (depth + 1) :=
  if_neg (UInt64.not_le.2 less)

/-- The next depth is one more: below the limit, which is a word, the count does not overflow. -/
theorem toNat_succ_of_lt (less : depth < limit) : (depth + 1).toNat = depth.toNat + 1 := by
  have fits := Nat.lt_of_le_of_lt (UInt64.lt_iff_toNat_lt.1 less) limit.toNat_lt
  rw [UInt64.toNat_add]
  exact Nat.mod_eq_of_lt fits

/-- One level deeper, there is one level less left. -/
theorem levels_of_lt (less : depth < limit) :
    limit.toNat - depth.toNat = limit.toNat - (depth + 1).toNat + 1 := by
  have room := UInt64.lt_iff_toNat_lt.1 less
  rw [toNat_succ_of_lt less]
  omega

theorem descend_eq_ok_iff {below : UInt64} :
    (descend limit depth).result = .ok below ↔ depth < limit ∧ below = depth + 1 := by
  by_cases le : limit ≤ depth
  · rw [descend_of_le le]
    simp [refuseDepth, UInt64.not_lt.2 le]
  · have less := UInt64.not_le.1 le
    rw [descend_of_lt less, Traced.result_pure, Except.ok.injEq, and_iff_right less, eq_comm]

variable (limit depth)

/-- A formula is read by going one level deeper and reading its parts there. -/
theorem conditionAt_eq (e : Element) :
    conditionAt limit depth e = descend limit depth >>= fun below =>
      conditionLevel (conditionAt limit below) (expressionAt limit below) e := by
  by_cases le : limit ≤ depth
  · rw [descend_of_le le, conditionAt, Nat.sub_eq_zero_of_le (UInt64.le_iff_toNat_le.1 le)]
    rfl
  · have less := UInt64.not_le.1 le
    rw [descend_of_lt less, conditionAt, levels_of_lt less, toCondition_succ]
    rfl

/-- An expression is read by going one level deeper and reading its parts there. -/
theorem expressionAt_eq (e : Element) :
    expressionAt limit depth e = descend limit depth >>= fun below =>
      expressionLevel (expressionAt limit below) e := by
  by_cases le : limit ≤ depth
  · rw [descend_of_le le, expressionAt, Nat.sub_eq_zero_of_le (UInt64.le_iff_toNat_le.1 le)]
    rfl
  · have less := UInt64.not_le.1 le
    rw [descend_of_lt less, expressionAt, levels_of_lt less, toExpr_succ]
    rfl

end Descend

/-- What is read above the first level starts at the depth zero. -/
def StartsAtZero (limit : UInt64) (e : Element) : Prop :=
  formula limit.toNat e = formulaOver (conditionAt limit 0) (expressionAt limit 0) e
    ∧ (∀ settings, statisticalFormula limit.toNat settings e
      = statisticalFormulaOver (conditionAt limit 0) settings e)
    ∧ observables limit.toNat e = observablesOver (expressionAt limit 0) e

theorem startsAtZero (limit : UInt64) (e : Element) : StartsAtZero limit e :=
  ⟨formula_eq_over limit.toNat e, fun settings => statisticalFormula_eq_over limit.toNat settings e,
    observables_eq_over limit.toNat e⟩

/-! ## What is asked of readers -/

/-- A computation that is given a reader can ask it for an element: with some readers, what it does
changes with what the reader does there. Nothing that is read is thrown away, so a reader that
refuses the element shows that it is asked. -/
def Asks {α β : Type} (run : Reader α → Traced Fault β) (x : Element) : Prop :=
  ∃ read read' : Reader α, (∀ y, y ≠ x → read y = read' y) ∧ run read ≠ run read'

/-- A computation over the readers of an element that uses them for what nests less deep asks them
for nothing else. -/
theorem Asks.depth_lt {α β : Type} {run : Reader α → Traced Fault β} {x e : Element}
    (asks : Asks run x)
    (uses : ∀ {read read' : Reader α}, SameWithin (fun _ => False) e.depth read read' →
      SameUnless (fun _ => False) (run read) (run read')) : x.depth < e.depth := by
  obtain ⟨read, read', elsewhere, differ⟩ := asks
  by_contra high
  have within : SameWithin (fun _ => False) e.depth read read' := by
    intro y less
    refine Or.inl (elsewhere y ?_).symm
    rintro rfl
    exact high less
  exact differ ((uses within).eq fun _ _ => id).symm

/-- What an element is read as. -/
inductive Role where
  | formula
  | expression

/-- One level of a reader asks for an element. -/
inductive AsksBelow (e : Element) : Role → Role → Element → Prop
  | formula {expressions : Reader Expr} {x : Element} :
      Asks (fun formulae => conditionLevel formulae expressions e) x →
      AsksBelow e .formula .formula x
  | operand {formulae : Reader Condition} {x : Element} :
      Asks (fun expressions => conditionLevel formulae expressions e) x →
      AsksBelow e .formula .expression x
  | expression {x : Element} :
      Asks (fun expressions => expressionLevel expressions e) x →
      AsksBelow e .expression .expression x

/-- The reading of a property asks for an element. -/
inductive AsksFirst (property : Element) : Role → Element → Prop
  | formula {expressions : Reader Expr} {body x : Element} :
      property.lastChild? .formula = some body →
      Asks (fun formulae => formulaOver formulae expressions body) x →
      AsksFirst property .formula x
  | bound {formulae : Reader Condition} {body x : Element} :
      property.lastChild? .formula = some body →
      Asks (fun expressions => formulaOver formulae expressions body) x →
      AsksFirst property .expression x
  | statistical {settings : Sampling} {body x : Element} :
      property.lastChild? .formula = some body →
      Asks (fun formulae => statisticalFormulaOver formulae settings body) x →
      AsksFirst property .formula x
  | observable {observations x : Element} :
      property.lastChild? .observations = some observations →
      Asks (fun expressions => observablesOver expressions observations) x →
      AsksFirst property .expression x

/-- An element can be read at a depth when a set of properties is read. This leaves out what else is
read before it and whether that succeeds, which properties are selected, and whether a property is
statistical, so all calls of a run are among these. -/
inductive Called (limit : UInt64) (root : Element) : Role → UInt64 → Element → Prop
  | first {property x : Element} {role : Role} :
      property ∈ root.children → AsksFirst property role x → Called limit root role 0 x
  | deeper {e x : Element} {role role' : Role} {depth below : UInt64} :
      Called limit root role depth e → (descend limit depth).result = .ok below →
      AsksBelow e role role' x → Called limit root role' below x

/-- The reader goes on with an element, at a depth that is one more. -/
def GoesOn (limit depth : UInt64) (e : Element) : Role → Prop
  | .formula =>
    conditionAt limit depth e
      = conditionLevel (conditionAt limit (depth + 1)) (expressionAt limit (depth + 1)) e
  | .expression =>
    expressionAt limit depth e = expressionLevel (expressionAt limit (depth + 1)) e

/-- Below the limit, the reader goes on. -/
theorem goesOn_of_lt {limit depth : UInt64} (less : depth < limit) (e : Element) (role : Role) :
    GoesOn limit depth e role := by
  cases role with
  | formula =>
    rw [GoesOn, conditionAt_eq, descend_of_lt less]
    rfl
  | expression =>
    rw [GoesOn, expressionAt_eq, descend_of_lt less]
    rfl

/-! ## Depths and levels of elements -/

/-- What one level of a reader asks for nests less deep than what it reads. -/
theorem AsksBelow.depth_lt {e x : Element} {role role' : Role} (h : AsksBelow e role role' x) :
    x.depth < e.depth := by
  cases h with
  | formula asks =>
    exact asks.depth_lt fun each => sameUnless_conditionLevel each fun _ _ => sameUnless_self _
  | operand asks =>
    exact asks.depth_lt fun each =>
      sameUnless_conditionLevel (fun _ _ => sameUnless_self _) each
  | expression asks => exact asks.depth_lt sameUnless_expressionLevel

/-- What is asked for first stands below a child of the property. -/
theorem AsksFirst.depth_lt {property x : Element} {role : Role} (h : AsksFirst property role x) :
    x.depth + 1 < property.depth := by
  have above {tag : Document.Tag} {part : Element} (last : property.lastChild? tag = some part)
      (less : x.depth < part.depth) : x.depth + 1 < property.depth :=
    Nat.lt_of_le_of_lt less (Element.depth_lt_of_mem (lastChild?_eq_some_iff.1 last).mem.1)
  cases h with
  | formula last asks =>
    exact above last (asks.depth_lt fun each =>
      sameUnless_formulaOver each fun _ _ => sameUnless_self _)
  | bound last asks =>
    exact above last (asks.depth_lt fun each =>
      sameUnless_formulaOver (fun _ _ => sameUnless_self _) each)
  | statistical last asks =>
    exact above last (asks.depth_lt fun each => sameUnless_statisticalFormulaOver each _)
  | observable last asks => exact above last (asks.depth_lt sameUnless_observablesOver)

/-- An element that is read at a depth stands at least three levels deeper in the tree. -/
theorem Called.depth_le {limit : UInt64} {root x : Element} {role : Role} {depth : UInt64}
    (h : Called limit root role depth x) : depth.toNat + x.depth + 3 ≤ root.depth := by
  induction h with
  | first member asks =>
    have first := asks.depth_lt
    have inSet := Element.depth_lt_of_mem member
    rw [UInt64.toNat_zero]
    omega
  | deeper _ goesOn asks ih =>
    obtain ⟨less, rfl⟩ := descend_eq_ok_iff.1 goesOn
    have lower := asks.depth_lt
    rw [toNat_succ_of_lt less]
    omega

/-! ## No refusals for nesting -/

section NoRefusals

variable {statistical : Bool} {limit : Nat} {e : Element}

/-- What is one level below an element nests less deep than the element. -/
theorem Below.depth_lt {x : Element} (h : Below statistical x e) : x.depth < e.depth := by
  cases h with
  | operand _ _ member _ => exact Element.depth_lt_of_mem member
  | passed member _ member' =>
    exact Nat.lt_trans (Element.depth_lt_of_mem member') (Element.depth_lt_of_mem member)
  | holdUntil _ member _ member' _ member'' =>
    have inner := Nat.lt_trans (Element.depth_lt_of_mem member'') (Element.depth_lt_of_mem member')
    exact Nat.lt_trans inner (Element.depth_lt_of_mem member)

/-- An element nests deeper than the levels below it. -/
theorem Nests.lt_depth {levels : Nat} (h : Nests statistical levels e) : levels < e.depth := by
  induction h with
  | zero => exact Element.depth_pos _
  | succ below _ ih => exact Nat.lt_of_le_of_lt ih below.depth_lt

/-- Where there is evidence of nesting, the element nests as deep. -/
theorem Evidence.lt_depth {levels found : Nat}
    (h : Evidence statistical limit levels e (.tooDeep found)) : levels < e.depth := by
  cases h with
  | depth nests => exact nests.lt_depth

/-- A property that is refused for nesting nests deeper than the limit, by its formula or by one of
its observables. -/
theorem PropertyFault.lt_depth {contexts : List Context} {found : Nat}
    (h : PropertyFault limit e contexts (.tooDeep found)) : limit + 2 < e.depth := by
  cases h with
  | formula _ last _ evidence =>
    exact Nat.lt_of_le_of_lt evidence.lt_depth (Element.depth_lt_of_mem last.mem.1)
  | observables _ _ last member _ _ evidence =>
    have part := Element.depth_lt_of_mem last.mem.1
    have watch := Element.depth_lt_of_mem member
    have inner := evidence.lt_depth
    omega

/-- A set of properties that nests no deeper than the limit and three levels more is not refused for
nesting. -/
theorem not_tooDeep_of_propertySet {options : Options} {root : Element} {failure : Failure}
    (shallow : root.depth ≤ options.maxDepth + 3)
    (refused : (propertySet options root).result = .error failure) (found : Nat) :
    failure.cause ≠ .grammar (.tooDeep found) := by
  obtain ⟨fault, cause, rfl | ⟨child, member, contexts, has⟩⟩ := exists_fault_of_propertySet refused
  · rw [cause]
    exact nofun
  · rw [cause]
    rintro same
    obtain rfl : fault = .tooDeep found := Cause.grammar.inj same
    have inSet := Element.depth_lt_of_mem member
    have deep := has.lt_depth
    omega

end NoRefusals

end Grammar

/-! ## Documents -/

open Document (maxNesting)
open Grammar

/-- The tree of a document nests at most one level deeper than its reader admits. -/
theorem depth_le_of_readRoot {reading : Markup.Options} {source : Source} {root : Element}
    (read : (readRoot reading source).result = .ok root) : root.depth ≤ maxNesting + 1 := by
  rw [readRoot, Traced.result_mapError] at read
  exact Document.depth_le_of_ofEvents (mapError_eq_ok_iff.1 read)

/-- What a document gives is the same under each limit that is no lower than the one on elements. -/
theorem items_document_eq {limit : Nat} (enough : maxNesting ≤ limit) (selected : List Nat)
    (reading : Markup.Options) (source : Source) :
    (Call.document reading source).items ⟨selected, limit⟩
      = (Call.document reading source).items ⟨selected, maxNesting⟩ := by
  have same : SameUnless (fun _ => False)
      ((Call.document reading source).items ⟨selected, maxNesting⟩)
      ((Call.document reading source).items ⟨selected, limit⟩) := by
    refine (sameUnless_self (readRoot reading source)).bind fun root read => Or.inl ?_
    have shallow := depth_le_of_readRoot read
    refine (sameUnless_propertySet enough selected root).eq fun failure refused => ?_
    exact not_tooDeep_of_propertySet (Nat.le_add_right_of_le (k := 2) shallow) refused maxNesting
  exact same.eq fun _ _ => id

/-- A document is not refused for the nesting of formulae and expressions under a limit that is no
lower than the one on elements. -/
theorem not_tooDeep_of_items {options : Options} (enough : maxNesting ≤ options.maxDepth)
    {reading : Markup.Options} {source : Source} {failure : Failure}
    (refused : ((Call.document reading source).items options).result = .error failure)
    (found : Nat) : failure.cause ≠ .grammar (.tooDeep found) := by
  rcases Traced.result_bind_eq_error_iff.1 refused with unread | ⟨root, read, refused⟩
  · rw [Call.root, readRoot, Traced.result_mapError] at unread
    obtain ⟨fault, -, rfl⟩ := mapError_eq_error_iff.1 unread
    intro same
    cases same
  · have shallow := depth_le_of_readRoot read
    exact not_tooDeep_of_propertySet (by omega) refused found

namespace Session

/-- **The limit on the nesting of elements bounds the depths of formulae and expressions.** Under a
limit that is no lower than that of elements, up to the largest word, a document gives the same
items, the same log and the same answer as under that of elements, whatever is selected and however
the markup is read, and it is not refused for the nesting of its formulae and expressions. Their
readers start at the depth zero and go on with all that they are called for, at depths below the
limit of elements, and no count of a depth overflows. -/
theorem nesting_bounds_depths {limit : UInt64} (enough : maxNesting ≤ limit.toNat)
    (session : Session) (reading : Markup.Options) (source : Source) :
    ((session.withLimit limit.toNat).addDocument reading source).1.items
        = ((session.withLimit maxNesting).addDocument reading source).1.items
      ∧ ((session.withLimit limit.toNat).addDocument reading source).2
        = ((session.withLimit maxNesting).addDocument reading source).2
      ∧ (∀ failure,
          ((session.withLimit limit.toNat).addDocument reading source).2.result = .error failure →
          ∀ found, failure.cause ≠ .grammar (.tooDeep found))
      ∧ (∀ e, StartsAtZero limit e)
      ∧ ∀ root, (readRoot reading source).result = .ok root → ∀ role depth x,
          Called limit root role depth x →
          depth.toNat < maxNesting ∧ (depth + 1).toNat = depth.toNat + 1
            ∧ GoesOn limit depth x role := by
  have calls (limit : Nat) : (session.withLimit limit).addDocument reading source
      = ((session.withLimit limit).append
            ((Call.document reading source).items ⟨session.options.selected, limit⟩).result,
          ((Call.document reading source).items ⟨session.options.selected, limit⟩).ending) :=
    call_eq (session.withLimit limit) (.document reading source)
  have same := items_document_eq enough session.options.selected reading source
  refine ⟨?_, ?_, ?_, startsAtZero limit, ?_⟩
  · rw [calls, calls, same]
    cases ((Call.document reading source).items ⟨session.options.selected, maxNesting⟩).result <;>
      rfl
  · rw [calls, calls, same]
  · intro failure refused
    rw [calls, Traced.result_ending_eq_error_iff] at refused
    exact not_tooDeep_of_items enough refused
  · intro root read role depth x called
    have reached := called.depth_le
    have shallow := depth_le_of_readRoot read
    have below : depth.toNat < maxNesting := by omega
    have less : depth < limit := UInt64.lt_iff_toNat_lt.2 (Nat.lt_of_lt_of_le below enough)
    exact ⟨below, toNat_succ_of_lt less, goesOn_of_lt less x role⟩

/-- A place without a name. -/
def place : Element := .mk .place "" .empty []

/-- A set with a property whose formula negates a place. -/
def negatedPlace : Element :=
  .mk .propertySet "" .empty [sampleProperty "q" (.mk .negation "" .empty [place])]

/-- The document of that set. -/
def negatedPlaceDocument : Source :=
  .ok ("<property-set><property><id>q</id><formula><negation><place/></negation></formula>"
    ++ "</property></property-set>").toUTF8.toList

/-- The place is read as a formula, one level below the first one. -/
theorem called_negatedPlace {limit : UInt64} (positive : 0 < limit) :
    Called limit negatedPlace .formula 1 place := by
  -- A reader that refuses one element tells whether it is asked for that element.
  have asks {run : Reader Query.Condition → Traced Fault Query.Condition} {x : Element}
      (fails : (run fun y => if y = x then refuseDepth 0 else return .deadlock).result
        ≠ (run fun _ => return .deadlock).result) : Asks run x :=
    ⟨_, fun _ => return .deadlock, fun y other => if_neg other, fun same => fails (same ▸ rfl)⟩
  have first : AsksFirst (sampleProperty "q" (.mk .negation "" .empty [place])) .formula
      (.mk .negation "" .empty [place]) := by
    refine @AsksFirst.formula _ (toExpr 0 0) _ _ rfl (asks ?_)
    decide
  have below : AsksBelow (.mk .negation "" .empty [place]) .formula .formula place := by
    refine @AsksBelow.formula _ (toExpr 0 0) _ (asks ?_)
    decide
  exact .deeper (.first (List.mem_singleton_self _) first) (descend_eq_ok_iff.2 ⟨positive, rfl⟩)
    below

/-- The limit is the largest word. -/
theorem nesting_bounds_depths_of_negatedPlace :
    maxNesting ≤ (0xFFFFFFFFFFFFFFFF : UInt64).toNat
      ∧ (((start .default).withLimit (0xFFFFFFFFFFFFFFFF : UInt64).toNat).addDocument .default
          negatedPlaceDocument).2.result
        = .error ⟨[.property 0, .formula "q"], .grammar (.unexpectedTag "place" .booleanFormula)⟩
      ∧ (∀ found, Cause.grammar (.unexpectedTag "place" .booleanFormula)
        ≠ .grammar (.tooDeep found))
      ∧ (readRoot .default negatedPlaceDocument).result = .ok negatedPlace
      ∧ Called 0xFFFFFFFFFFFFFFFF negatedPlace .formula 1 place
      ∧ (1 : UInt64).toNat < maxNesting
      ∧ GoesOn 0xFFFFFFFFFFFFFFFF 1 place .formula := by
  have enough : maxNesting ≤ (0xFFFFFFFFFFFFFFFF : UInt64).toNat := by decide
  obtain ⟨-, same, faults, -, depths⟩ :=
    nesting_bounds_depths enough (start .default) .default negatedPlaceDocument
  have refused : (((start .default).withLimit maxNesting).addDocument .default
        negatedPlaceDocument).2.result
      = .error ⟨[.property 0, .formula "q"],
          .grammar (.unexpectedTag "place" .booleanFormula)⟩ := by
    decide +kernel
  have read : (readRoot .default negatedPlaceDocument).result = .ok negatedPlace := by
    decide +kernel
  have called := @called_negatedPlace 0xFFFFFFFFFFFFFFFF (by decide)
  obtain ⟨below, -, goesOn⟩ := depths negatedPlace read .formula 1 place called
  rw [← same] at refused
  exact ⟨enough, refused, faults _ refused, read, called, below, goesOn⟩

end Session

end PetriQuery
