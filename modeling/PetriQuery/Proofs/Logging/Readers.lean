import PetriQuery.Proofs.Grammar.Root
import PetriQuery.Proofs.Logging.Announcing

/-!
# Readers announce their failures

Whatever an element is refused for by a reader of formulae, expressions, settings or observables is
logged as an error, and so is what a property or a set of properties is refused for: one lemma for
each reader.
-/

set_option autoImplicit false

namespace PetriQuery

open Traced

/-! ## Readers of elements -/

namespace Grammar

open Document (Element)
open Query (Condition Expr PathQuantifier Sampling)

/-- The readers announce every failure. -/
abbrev AnnouncesAll {α : Type} (x : Traced Fault α) : Prop := Announces (fun _ => True) x

section Children

variable (e : Element)

theorem announces_refuseArity {α : Type} (expected : Arity) :
    AnnouncesAll (refuseArity expected e : Traced Fault α) :=
  announces_refuse trivial _

theorem announces_unexpected {α : Type} (context : Construct) :
    AnnouncesAll (unexpected e context : Traced Fault α) :=
  announces_refuse trivial _

theorem announces_onlyChild : AnnouncesAll (onlyChild e) := by
  unfold onlyChild
  split
  · exact announces_pure _
  · exact announces_refuseArity e _

theorem announces_twoChildren : AnnouncesAll (twoChildren e) := by
  unfold twoChildren
  split
  · exact announces_pure _
  · exact announces_refuseArity e _

theorem announces_noChildren : AnnouncesAll (noChildren e) := by
  unfold noChildren
  split
  · exact announces_pure _
  · exact announces_refuseArity e _

theorem announces_someChildren (count : Nat) : AnnouncesAll (someChildren count e) := by
  unfold someChildren
  split_ifs with enough
  · exact announces_pure _
  · exact announces_refuseArity e _

theorem announces_operands : AnnouncesAll (operands e) := by
  unfold operands
  split
  · exact announces_pure _
  · exact announces_refuseArity e _

end Children

/-! ### Expressions -/

theorem announces_constant (e : Element) : AnnouncesAll (constant e) := by
  simp only [constant]
  split
  · exact announces_pure _
  · exact announces_refuse trivial _

theorem announces_tokensOf (message : String) (e : Element) :
    AnnouncesAll (tokensOf message e) := by
  unfold tokensOf
  split_ifs with empty
  · exact announces_refuse trivial _
  · exact announces_pure _

theorem announces_countedPlace (e : Element) : AnnouncesAll (countedPlace e) := by
  unfold countedPlace
  split_ifs with place
  · exact announces_tokensOf _ e
  · exact announces_unexpected e _

/-- What is read of the children, if there are enough of them, and combined. -/
theorem announces_ofChildren {α : Type} {read : Element → Traced Fault Expr}
    (each : ∀ x, AnnouncesAll (read x)) (count : Nat) (e : Element) (f : List Expr → α) :
    AnnouncesAll (do return f (← (← someChildren count e).mapM read)) :=
  (announces_someChildren e count).bind fun children _ =>
    (Announces.mapM each children).bind fun operands _ => announces_pure (f operands)

theorem announces_toExpr (limit left : Nat) (e : Element) :
    AnnouncesAll (toExpr limit left e) := by
  induction left generalizing e with
  | zero => exact announces_refuse trivial _
  | succ left ih =>
    unfold toExpr
    split
    · exact announces_constant e
    · exact announces_ofChildren announces_countedPlace 1 e sumOfPlaces
    · exact announces_tokensOf _ e
    · exact announces_ofChildren ih 2 e (Expr.chain .sum)
    · exact announces_ofChildren ih 2 e (Expr.chain .product)
    · exact announces_ofChildren ih 1 e differenceOf
    · exact announces_unexpected e _

/-! ### Formulae -/

section Formulae

variable {read : Reader Condition} (each : ∀ x, AnnouncesAll (read x)) (e : Element)

include each

/-- What is read of the only child, and changed. -/
theorem announces_ofOnlyChild {α : Type} (f : Condition → α) :
    AnnouncesAll (do return f (← read (← onlyChild e))) :=
  (announces_onlyChild e).bind fun child _ => (each child).bind fun c _ => announces_pure (f c)

theorem announces_pair : AnnouncesAll (pair read e) :=
  (announces_twoChildren e).bind fun children _ =>
    (each children.1).bind fun _ _ => (each children.2).bind fun _ _ => announces_pure _

theorem announces_combine (op : Condition → Condition → Condition) :
    AnnouncesAll (combine read op e) :=
  (announces_operands e).bind fun children _ => (each children.1).bind fun start _ =>
    Announces.foldlM (fun sofar child => (each child).map (op sofar)) children.2 start

theorem announces_negation : AnnouncesAll (negation read e) := by
  refine (announces_onlyChild e).bind fun child _ => ?_
  split
  · exact announces_ofOnlyChild each child fun c => (Condition.neg c).ef
  · exact announces_ofOnlyChild each child Condition.ef
  · exact announces_ofOnlyChild each child fun c => Condition.neg c.ef
  · exact (each child).bind fun c _ => announces_pure c.neg

theorem announces_untilOperands : AnnouncesAll (untilOperands read e) := by
  refine (announces_twoChildren e).bind ?_
  rintro ⟨before, reach⟩ -
  simp only
  split_ifs with kinds
  · exact (announces_onlyChild before).bind fun x _ => (each x).bind fun hold _ =>
      announces_ofOnlyChild each reach fun goal => (hold, goal)
  · exact announces_refuse trivial _

theorem announces_pathFormula (quantifier : PathQuantifier) :
    AnnouncesAll (pathFormula read quantifier e) := by
  refine (announces_onlyChild e).bind fun modality _ => ?_
  split
  · exact announces_ofOnlyChild each modality _
  · exact announces_ofOnlyChild each modality _
  · exact announces_ofOnlyChild each modality _
  · exact (announces_untilOperands each modality).bind fun _ _ => announces_pure _
  · exact announces_unexpected modality _

end Formulae

theorem announces_comparison {expression : Reader Expr} (each : ∀ x, AnnouncesAll (expression x))
    (e : Element) : AnnouncesAll (comparison expression e) := by
  refine (announces_twoChildren e).bind fun children _ => (each children.1).bind fun left _ =>
    (each children.2).bind fun right _ => ?_
  unfold compareOperands
  split
  case h_7 => exact announces_unexpected e _
  all_goals exact announces_pure _

theorem announces_leaf (e : Element) (c : Condition) :
    AnnouncesAll (noChildren e >>= fun _ => pure c) :=
  (announces_noChildren e).bind fun _ _ => announces_pure c

theorem announces_toCondition (limit left : Nat) (e : Element) :
    AnnouncesAll (toCondition limit left e) := by
  induction left generalizing e with
  | zero => exact announces_refuse trivial _
  | succ left ih =>
    have two (f : Condition × Condition → Condition) :
        AnnouncesAll (pair (toCondition limit left) e >>= fun operands => pure (f operands)) :=
      (announces_pair ih e).bind fun _ _ => announces_pure _
    unfold toCondition
    split
    · exact announces_ofOnlyChild ih e fun c => Condition.neg (Condition.neg c).ef
    · exact announces_ofOnlyChild ih e fun c => Condition.neg c.ef
    · exact announces_ofOnlyChild ih e Condition.ef
    · exact announces_pathFormula ih e _
    · exact announces_pathFormula ih e _
    · exact announces_leaf e _
    · exact announces_leaf e _
    · exact announces_leaf e _
    · exact announces_negation ih e
    · exact announces_combine ih e _
    · exact announces_combine ih e _
    · exact two fun operands => exclusive operands.1 operands.2
    · exact two fun operands => .disj (.neg operands.1) operands.2
    · exact two fun operands => equivalent operands.1 operands.2
    case h_21 => exact announces_unexpected e _
    all_goals exact announces_comparison (announces_toExpr limit left) e

theorem announces_formula (limit : Nat) (e : Element) : AnnouncesAll (formula limit e) := by
  refine (announces_onlyChild e).bind fun child _ => ?_
  split
  · exact (announces_onlyChild child).bind fun x _ =>
      (announces_toExpr limit limit x).bind fun _ _ => announces_pure _
  · exact announces_ofOnlyChild (announces_toCondition limit limit) child _
  · exact announces_toCondition limit limit child

theorem announces_statisticalFormula (limit : Nat) (settings : Sampling) (e : Element) :
    AnnouncesAll (statisticalFormula limit settings e) := by
  refine (announces_onlyChild e).bind fun child _ => ?_
  split
  · exact announces_ofOnlyChild (announces_toCondition limit limit) child _
  · exact announces_ofOnlyChild (announces_toCondition limit limit) child _
  · exact announces_unexpected child _

/-! ### Statistical queries -/

theorem announces_readAttribute {α : Type} (read? : List Char → Option α) (e : Element)
    (key : String) : AnnouncesAll (readAttribute read? e key) := by
  unfold readAttribute
  split
  · exact announces_pure _
  · split
    · exact announces_pure _
    · exact announces_refuse trivial _

theorem announces_settings (e : Element) : AnnouncesAll (settings e) := by
  unfold settings
  simp only
  iterate 8 refine (announces_readAttribute _ e _).bind fun _ _ => ?_
  exact (announces_note (by decide) _).bind fun _ _ => announces_pure _

theorem announces_observable? (limit : Nat) (e : Element) : AnnouncesAll (observable? limit e) := by
  unfold observable?
  split
  · exact (announces_note (by decide) _).bind fun _ _ => announces_pure _
  · exact (announces_onlyChild e).bind fun x _ =>
      (announces_toExpr limit limit x).bind fun _ _ => announces_pure _

theorem announces_observables (limit : Nat) (e : Element) : AnnouncesAll (observables limit e) :=
  (Announces.mapM (announces_observable? limit) _).bind fun _ _ => announces_pure _

end Grammar

/-! ## Properties -/

/-- Whether a failure is raised for what the document says, and not for its bytes: by the builder or
by a reader. -/
def Failure.IsRaised (failure : Failure) : Prop :=
  match failure.cause with
  | .file _ | .tree (.markup _) => False
  | .tree _ | .grammar _ => True

/-- A failure that is announced: one that is raised, unless it is that there is no root element. -/
def Failure.IsAnnounced (failure : Failure) : Prop :=
  failure.IsRaised ∧ failure.cause ≠ .tree .noRoot

namespace Grammar

open Document (Element)
open Query (Condition Sampling)

/-- Every failure of the grammar is announced. -/
theorem isAnnounced_grammar (contexts : List Context) (fault : Fault) :
    Failure.IsAnnounced ⟨contexts, .grammar fault⟩ :=
  ⟨trivial, nofun⟩

/-- A reader announces its failures in every context. -/
theorem AnnouncesAll.inContext {α : Type} {x : Traced Fault α} (h : AnnouncesAll x)
    (context : Context) : Announces Failure.IsAnnounced (x.mapError (failureIn context)) :=
  h.mapError fun fault => iff_of_true (isAnnounced_grammar _ fault) trivial

theorem announces_take (parts : Parts) (child : Element) :
    Announces Failure.IsAnnounced (parts.take child) := by
  unfold Parts.take
  split
  · exact announces_pure _
  · exact announces_pure _
  · exact announces_pure _
  · exact announces_pure _
  · exact announces_pure _
  · exact (announces_note (by decide) _).bind fun _ _ => announces_pure parts

theorem announces_scan (e : Element) : Announces Failure.IsAnnounced (scan e) :=
  Announces.foldlM announces_take e.children {}

/-- Observables are attached without a record of their own, so nothing but a statistical query may
come here. -/
theorem announces_attachObservables (limit : Nat) (id : String) {query : Condition}
    (statistical : query.isStatistical = true) (observations? : Option Element) :
    Announces Failure.IsAnnounced (attachObservables limit id query observations?) := by
  cases observations? with
  | none => exact announces_pure _
  | some observations =>
    refine (announces_observables limit observations).inContext _ |>.bind fun found _ => ?_
    have some := Condition.isSome_withObservables? query found
    rw [statistical] at some
    cases attached : query.withObservables? found with
    | none =>
      rw [attached] at some
      cases some
    | some query => exact announces_pure _

theorem announces_propertyQuery (limit : Nat) (parts : Parts) (id : String) (body : Element) :
    Announces Failure.IsAnnounced (propertyQuery limit parts id body) := by
  unfold propertyQuery
  split
  · exact (announces_formula limit body).inContext _
  · next smc _ =>
    refine ((announces_settings smc).inContext _).bind fun made _ => ?_
    refine ((announces_statisticalFormula limit made body).inContext _).bind fun query read => ?_
    obtain ⟨k, -, derivation⟩ := statisticalFormula_eq_ok_iff.1 (mapError_eq_ok_iff.1 read)
    cases derivation
    exact announces_attachObservables limit id rfl _

theorem announces_refuseGrammar {α : Type} (message : String) (fault : Fault) :
    Announces Failure.IsAnnounced (refuseGrammar message fault : Traced Failure α) :=
  announces_refuse (isAnnounced_grammar [] fault) message

theorem announces_property (limit : Nat) (e : Element) :
    Announces Failure.IsAnnounced (property limit e) := by
  unfold property
  split
  · exact announces_refuseGrammar _ _
  · refine (announces_scan e).bind fun parts _ => ?_
    split
    · exact announces_refuseGrammar _ _
    · refine (announces_note (by decide) _).bind fun _ _ => ?_
      split_ifs with marked
      · exact (announces_note (by decide) _).bind fun _ _ => announces_pure _
      · split
        · exact announces_refuseGrammar _ _
        · exact (announces_propertyQuery limit parts _ _).bind fun _ _ => announces_pure _

theorem announces_selectedProperty (options : Options) (child : Element) (index : Nat) :
    Announces Failure.IsAnnounced (selectedProperty options child index) := by
  unfold selectedProperty
  split_ifs with selected
  · exact (announces_property options.maxDepth child).mapError fun failure => Iff.rfl
  · exact (announces_note (by decide) _).bind fun _ _ => announces_pure _

theorem announces_propertySet (options : Options) (root : Element) :
    Announces Failure.IsAnnounced (propertySet options root) := by
  have enters : Announces Failure.IsAnnounced (enterSet root) := by
    unfold enterSet
    split_ifs with kind
    · exact announces_refuseGrammar _ _
    · exact announces_note (by decide) _
  have walks := Announces.mapM
    (fun entry : Element × Nat => announces_selectedProperty options entry.1 entry.2)
    root.children.zipIdx
  refine enters.bind fun _ _ => walks.bind fun items _ => ?_
  exact (announces_note (by decide) _).bind fun _ _ => announces_pure items

end Grammar

end PetriQuery
