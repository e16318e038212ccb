import PetriQuery.Proofs.Grammar.Evidence
import PetriQuery.Proofs.Grammar.Formula
import PetriQuery.Proofs.Grammar.Watches
import PetriQuery.Proofs.Text.Trimming

/-!
# The faults of formulae are true

When an element is refused, there is evidence of the fault in it: for expressions and formulae by
induction on the levels that are left (`blamed_of_toExpr`, `blamed_of_toCondition`), and from there
for `formula` elements and for the `watch` children of `observations`.

An element that is refused by its own kind is blamed by what wanted it, not by itself. So the
induction speaks of what an element is blamed for, and the evidence is found one level above.
-/

set_option autoImplicit false

namespace PetriQuery.Grammar

open Document (Element Tag)
open Query (Condition Expr PathQuantifier Sampling)
open Traced (result_bind_eq_error_iff result_bind_pure_eq_error_iff)

/-! ## Children that are refused -/

section Children

variable {e : Element} {fault : Fault}

/-- What refuses an element for the number of its children, if anything, does so when that number is
not admitted. -/
theorem refused_of_isOk {α : Type} {take : Traced Fault α} {expected : Arity}
    (judged : take.result.isOk = expected.admits e.children.length)
    (shape : take = refuseArity expected e ∨ ∃ a, take = pure a)
    (failed : take.result = .error fault) : Refused expected e fault := by
  rcases shape with rfl | ⟨a, rfl⟩
  · exact ⟨judged.symm, (Except.error.inj failed).symm⟩
  · cases failed

theorem refused_of_onlyChild (failed : (onlyChild e).result = .error fault) :
    Refused (.exactly 1) e fault := by
  refine refused_of_isOk (isOk_onlyChild e) ?_ failed
  unfold onlyChild
  split
  · exact .inr ⟨_, rfl⟩
  · exact .inl rfl

theorem refused_of_twoChildren (failed : (twoChildren e).result = .error fault) :
    Refused (.exactly 2) e fault := by
  refine refused_of_isOk (isOk_twoChildren e) ?_ failed
  unfold twoChildren
  split
  · exact .inr ⟨_, rfl⟩
  · exact .inl rfl

theorem refused_of_noChildren (failed : (noChildren e).result = .error fault) :
    Refused (.exactly 0) e fault := by
  refine refused_of_isOk (isOk_noChildren e) ?_ failed
  unfold noChildren
  split
  · exact .inr ⟨_, rfl⟩
  · exact .inl rfl

theorem refused_of_someChildren {count : Nat}
    (failed : (someChildren count e).result = .error fault) : Refused (.atLeast count) e fault := by
  refine refused_of_isOk (isOk_someChildren count e) ?_ failed
  unfold someChildren
  split
  · exact .inr ⟨_, rfl⟩
  · exact .inl rfl

theorem refused_of_operands (failed : (operands e).result = .error fault) :
    Refused (.atLeast 2) e fault := by
  refine refused_of_isOk (isOk_operands e) ?_ failed
  unfold operands
  split
  · exact .inr ⟨_, rfl⟩
  · exact .inl rfl

variable {α β : Type} {read : Reader α}

/-- The only child is read and its value changed. -/
theorem refusedAt_of_onlyChild {build : α → β}
    (failed : (onlyChild e >>= fun x => read x >>= fun a => pure (build a)).result = .error fault) :
    RefusedAt read (.exactly 1) e fault := by
  rw [result_bind_eq_error_iff] at failed
  rcases failed with failed | ⟨x, children, failed⟩
  · exact .inl (refused_of_onlyChild failed)
  · rw [onlyChild_eq_ok_iff] at children
    rw [result_bind_pure_eq_error_iff] at failed
    exact .inr ⟨x, children ▸ List.mem_singleton_self x, failed⟩

/-- All children are read and their values put together. -/
theorem refusedAt_of_someChildren {count : Nat} {build : List α → β}
    (failed : (someChildren count e >>= fun es => es.mapM read >>= fun as =>
      pure (build as)).result = .error fault) : RefusedAt read (.atLeast count) e fault := by
  rw [result_bind_eq_error_iff] at failed
  rcases failed with failed | ⟨es, children, failed⟩
  · exact .inl (refused_of_someChildren failed)
  · obtain ⟨-, rfl⟩ := someChildren_eq_ok_iff.1 children
    rw [result_bind_pure_eq_error_iff] at failed
    exact .inr (Traced.exists_error_of_mapM failed)

/-- Two children are read, the second one after the first. -/
theorem refusedAt_of_pair {read : Reader Condition} (failed : (pair read e).result = .error fault) :
    RefusedAt read (.exactly 2) e fault := by
  rw [pair, result_bind_eq_error_iff] at failed
  rcases failed with failed | ⟨⟨first, second⟩, children, failed⟩
  · exact .inl (refused_of_twoChildren failed)
  · have children := twoChildren_eq_ok_iff.1 children
    rw [result_bind_eq_error_iff] at failed
    rcases failed with failed | ⟨c, -, failed⟩
    · exact .inr ⟨first, by simp [children], failed⟩
    · rw [result_bind_pure_eq_error_iff] at failed
      exact .inr ⟨second, by simp [children], failed⟩

/-- Two or more children are read and put together from the left. -/
theorem refusedAt_of_combine {read : Reader Condition} {op : Condition → Condition → Condition}
    (failed : (combine read op e).result = .error fault) : RefusedAt read (.atLeast 2) e fault := by
  simp only [combine, result_bind_eq_error_iff] at failed
  rcases failed with failed | ⟨⟨first, rest⟩, children, failed⟩
  · exact .inl (refused_of_operands failed)
  · obtain ⟨-, children⟩ := operands_eq_ok_iff.1 children
    rw [RefusedAt, children]
    rcases failed with failed | ⟨start, -, failed⟩
    · exact .inr ⟨first, List.mem_cons_self, failed⟩
    · obtain ⟨x, member, failed⟩ := Traced.exists_error_of_foldlM_map failed
      exact .inr ⟨x, List.mem_cons_of_mem first member, failed⟩

/-- Two operands are read and compared, which an element that is no comparison does not do. -/
theorem refusedAt_of_comparison {expression : Reader Expr}
    (failed : (comparison expression e).result = .error fault)
    (compares : ∀ x y, ∃ c, (compareOperands e x y).result = .ok c) :
    RefusedAt expression (.exactly 2) e fault := by
  simp only [comparison, result_bind_eq_error_iff] at failed
  rcases failed with failed | ⟨⟨first, second⟩, children, failed⟩
  · exact .inl (refused_of_twoChildren failed)
  · have children := twoChildren_eq_ok_iff.1 children
    rcases failed with failed | ⟨x, -, failed | ⟨y, -, failed⟩⟩
    · exact .inr ⟨first, by simp [children], failed⟩
    · exact .inr ⟨second, by simp [children], failed⟩
    · obtain ⟨c, compared⟩ := compares x y
      cases compared.symm.trans failed

/-- A leaf is refused for its children alone. -/
theorem refused_of_leaf {c : Condition}
    (failed : (noChildren e >>= fun _ => pure c).result = .error fault) :
    Refused (.exactly 0) e fault :=
  refused_of_noChildren (result_bind_pure_eq_error_iff.1 failed)

end Children

/-! ## Expressions -/

section Expressions

variable {statistical : Bool} {limit left : Nat} {e : Element} {fault : Fault}

/-- The text of a constant that is refused writes no integer of its range. -/
theorem evidence_of_constant (tag : e.tag = .integerConstant)
    (failed : (constant e).result = .error fault) :
    Evidence statistical limit left e fault := by
  obtain ⟨other, rfl⟩ := constant_eq_error_iff.1 failed
  exact .integer .self tag other

/-- Only a place without a name is refused. -/
theorem evidence_of_tokensOf {message : String} {x : Element} (tag : x.tag = .place)
    (inside : Inside x e) (failed : (tokensOf message x).result = .error fault) :
    Evidence statistical limit left e fault := by
  unfold tokensOf at failed
  split at failed
  · next empty =>
    obtain rfl := Except.error.inj failed
    rw [Element.placeName, if_pos tag, Text.strip_eq_empty_iff] at empty
    exact .place inside tag empty
  · cases failed

/-- What is counted in a `tokens-count` is refused by its kind or for its name. -/
theorem evidence_of_tokensCount (tag : e.tag = .tokensCount)
    (failed : (tokensCount e).result = .error fault) :
    Evidence statistical limit left e fault := by
  rcases refusedAt_of_someChildren failed with refused | ⟨x, member, failed⟩
  · exact refused.evidence .self (by rw [tag]; rfl)
  · unfold countedPlace at failed
    split at failed
    · next place => exact evidence_of_tokensOf place (inside_of_mem member) failed
    · next other =>
      obtain rfl := Except.error.inj failed
      exact .kind .self member (by rw [tag]; rfl) (by simpa using other)

/-- What an element is blamed for that is refused as an expression. -/
theorem blamed_of_toExpr (failed : (toExpr limit left e).result = .error fault) :
    Blamed statistical limit left .integerExpression expressionTags e fault := by
  induction left generalizing e with
  | zero =>
    obtain rfl := Except.error.inj failed
    exact .inr (.depth .zero)
  | succ left ih =>
    have blames := fun x => @ih x
    obtain ⟨tag, text, attributes, es⟩ := e
    cases tag with
    | integerConstant => exact .inr (evidence_of_constant rfl failed)
    | tokensCount => exact .inr (evidence_of_tokensCount rfl failed)
    | place => exact .inr (evidence_of_tokensOf rfl .self failed)
    | integerSum =>
      have refused := refusedAt_of_someChildren failed
      exact .inr (refused.evidence_self blames rfl rfl (.inr rfl) fun _ => rfl)
    | integerProduct =>
      have refused := refusedAt_of_someChildren failed
      exact .inr (refused.evidence_self blames rfl rfl (.inr rfl) fun _ => rfl)
    | integerDifference =>
      have refused := refusedAt_of_someChildren failed
      exact .inr (refused.evidence_self blames rfl rfl (.inr rfl) fun _ => rfl)
    | _ =>
      obtain rfl := Except.error.inj failed
      exact .inl ⟨rfl, by simp [expressionTags, Element.tag]⟩

end Expressions

/-! ## Formulae -/

section Formulae

variable {statistical : Bool} {limit left : Nat} {e : Element} {fault : Fault}
  {read : Reader Condition}
  (blames : ∀ x, (read x).result = .error fault →
    Blamed statistical limit left .booleanFormula formulaTags x fault)

include blames

/-- A negation is refused for its child, or for what is below a reachability formula right below
it. -/
theorem evidence_of_negation (tag : e.tag = .negation)
    (failed : (negation read e).result = .error fault) :
    Evidence statistical limit (left + 1) e fault := by
  have whole := failed
  rw [negation, result_bind_eq_error_iff] at failed
  rcases failed with failed | ⟨child, children, failed⟩
  · exact (refused_of_onlyChild failed).evidence .self (by rw [tag]; rfl)
  · rw [onlyChild_eq_ok_iff] at children
    have member : child ∈ e.children := children ▸ List.mem_singleton_self child
    by_cases reachability : IsReachabilityTag child.tag
    · rcases reachability with tag' | tag' | tag'
      all_goals
        rw [tag'] at failed
        have refused := refusedAt_of_onlyChild failed
        exact refused.evidence_passed blames member (by rw [tag, tag']; rfl) (by rw [tag']; rfl)
          (by rw [tag']; rfl)
    · rw [negation_of_other children reachability, result_bind_pure_eq_error_iff] at whole
      have direct : passes statistical e.tag child.tag = false := by
        rw [tag]
        cases below : child.tag with
        | invariant => exact absurd (.inl below) reachability
        | impossibility => exact absurd (.inr (.inl below)) reachability
        | possibility => exact absurd (.inr (.inr below)) reachability
        | _ => rfl
      have wants : wanted statistical e.tag = some (.booleanFormula, formulaTags) := by
        rw [tag]
        rfl
      exact (blames child whole).evidence .self member wants
        (.operand wants (.inl rfl) member direct)

/-- An `until` is refused for its two children, or for what is below one of them. -/
theorem evidence_of_untilOperands {modality : Element} (member : modality ∈ e.children)
    (tag : e.tag = .existsPath ∨ e.tag = .allPaths) (tag' : modality.tag = .holdUntil)
    (failed : (untilOperands read modality).result = .error fault) :
    Evidence statistical limit (left + 1) e fault := by
  have inside : Inside modality e := inside_of_mem member
  simp only [untilOperands, result_bind_eq_error_iff] at failed
  rcases failed with failed | ⟨⟨before, reach⟩, children, failed⟩
  · exact (refused_of_twoChildren failed).evidence inside (by rw [tag']; rfl)
  · have children := twoChildren_eq_ok_iff.1 children
    split at failed
    · next kinds =>
      obtain ⟨beforeTag, reachTag⟩ := kinds
      -- The operands of either child are one level below the quantifier.
      have evidence {z : Element} (member' : z ∈ modality.children)
          (kind : z.tag = .before ∨ z.tag = .reach)
          (refused : RefusedAt read (.exactly 1) z fault) :
          Evidence statistical limit (left + 1) e fault := by
        apply refused.evidence blames ((inside_of_mem member').trans inside)
        · rcases kind with same | same <;> rw [same] <;> rfl
        · rcases kind with same | same <;> rw [same] <;> rfl
        · intro x operand
          exact .holdUntil tag member tag' member' kind operand
      have first : before ∈ modality.children := by simp [children]
      have second : reach ∈ modality.children := by simp [children]
      simp only [result_bind_eq_error_iff, onlyChild_eq_ok_iff, Traced.result_pure, reduceCtorEq,
        and_false, exists_false, or_false] at failed
      rcases failed with failed | ⟨φ, inner, failed | ⟨c, -, failed | ⟨ψ, inner, failed⟩⟩⟩
      · exact evidence first (.inl beforeTag) (.inl (refused_of_onlyChild failed))
      · exact evidence first (.inl beforeTag) (.inr ⟨φ, by simp [inner], failed⟩)
      · exact evidence second (.inr reachTag) (.inl (refused_of_onlyChild failed))
      · exact evidence second (.inr reachTag) (.inr ⟨ψ, by simp [inner], failed⟩)
    · next kinds =>
      obtain rfl := Except.error.inj failed
      exact .untilOperands inside tag' children kinds

/-- A quantifier over paths is refused for the modality below it, or for what is below that. -/
theorem evidence_of_pathFormula {quantifier : PathQuantifier}
    (tag : e.tag = .existsPath ∨ e.tag = .allPaths)
    (failed : (pathFormula read quantifier e).result = .error fault) :
    Evidence statistical limit (left + 1) e fault := by
  have arity : arityOf e.tag = some (.exactly 1) := by
    rcases tag with tag | tag <;> rw [tag] <;> rfl
  have wants : wanted statistical e.tag
      = some (.pathFormula, [.next, .always, .eventually, .holdUntil]) := by
    rcases tag with tag | tag <;> rw [tag] <;> rfl
  rw [pathFormula, result_bind_eq_error_iff] at failed
  rcases failed with failed | ⟨modality, children, failed⟩
  · exact (refused_of_onlyChild failed).evidence .self arity
  · rw [onlyChild_eq_ok_iff] at children
    have member : modality ∈ e.children := children ▸ List.mem_singleton_self modality
    have passed (below : modality.tag = .next ∨ modality.tag = .always ∨ modality.tag = .eventually)
        (refused : RefusedAt read (.exactly 1) modality fault) :
        Evidence statistical limit (left + 1) e fault := by
      apply refused.evidence_passed blames member
      · rcases tag with tag | tag <;> rcases below with below | below | below <;>
          rw [tag, below] <;> rfl
      · rcases below with below | below | below <;> rw [below] <;> rfl
      · rcases below with below | below | below <;> rw [below] <;> rfl
    split at failed
    · next below => exact passed (.inl below) (refusedAt_of_onlyChild failed)
    · next below => exact passed (.inr (.inl below)) (refusedAt_of_onlyChild failed)
    · next below => exact passed (.inr (.inr below)) (refusedAt_of_onlyChild failed)
    · next below =>
      have failed := result_bind_pure_eq_error_iff.1 failed
      exact evidence_of_untilOperands blames member tag below failed
    · next notNext notAlways notEventually notUntil =>
      obtain rfl := Except.error.inj failed
      exact .kind .self member wants
        (by simpa using ⟨notNext, notAlways, notEventually, notUntil⟩)

end Formulae

/-- What an element is blamed for that is refused as a formula. -/
theorem blamed_of_toCondition {statistical : Bool} {limit left : Nat} {e : Element} {fault : Fault}
    (failed : (toCondition limit left e).result = .error fault) :
    Blamed statistical limit left .booleanFormula formulaTags e fault := by
  induction left generalizing e with
  | zero =>
    obtain rfl := Except.error.inj failed
    exact .inr (.depth .zero)
  | succ left ih =>
    have blames := fun x => @ih x
    have blames' (x : Element) (failed : (toExpr limit left x).result = .error fault) :
        Blamed statistical limit left .integerExpression expressionTags x fault :=
      blamed_of_toExpr failed
    obtain ⟨tag, text, attributes, es⟩ := e
    cases tag with
    | invariant | impossibility | possibility =>
      have refused := refusedAt_of_onlyChild failed
      exact .inr (refused.evidence_self blames rfl rfl (.inl rfl) fun _ => rfl)
    | existsPath => exact .inr (evidence_of_pathFormula blames (.inl rfl) failed)
    | allPaths => exact .inr (evidence_of_pathFormula blames (.inr rfl) failed)
    | deadlock | alwaysTrue | alwaysFalse =>
      exact .inr ((refused_of_leaf failed).evidence .self rfl)
    | negation => exact .inr (evidence_of_negation blames rfl failed)
    | conjunction | disjunction =>
      have refused := refusedAt_of_combine failed
      exact .inr (refused.evidence_self blames rfl rfl (.inl rfl) fun _ => rfl)
    | exclusiveDisjunction | implication | equivalence =>
      have refused := refusedAt_of_pair (result_bind_pure_eq_error_iff.1 failed)
      exact .inr (refused.evidence_self blames rfl rfl (.inl rfl) fun _ => rfl)
    | integerEq | integerNe | integerLt | integerLe | integerGt | integerGe =>
      have refused := refusedAt_of_comparison failed fun x y => ⟨_, rfl⟩
      exact .inr (refused.evidence_self blames' rfl rfl (.inr rfl) fun _ => rfl)
    | _ =>
      obtain rfl := Except.error.inj failed
      exact .inl ⟨rfl, by simp [formulaTags, Element.tag]⟩

/-! ## Roots -/

section Roots

variable {limit : Nat} {e : Element} {fault : Fault}

/-- There is evidence of the fault for which the content of a `formula` element is refused. -/
theorem evidence_of_formula (tag : e.tag = .formula)
    (failed : (formula limit e).result = .error fault) :
    Evidence false limit (limit + 1) e fault := by
  have wants : wanted false e.tag = some (.booleanFormula, .kSafe :: .control :: formulaTags) := by
    rw [tag]
    rfl
  rw [formula, result_bind_eq_error_iff] at failed
  rcases failed with failed | ⟨child, children, failed⟩
  · exact (refused_of_onlyChild failed).evidence .self (by rw [tag]; rfl)
  · rw [onlyChild_eq_ok_iff] at children
    have member : child ∈ e.children := children ▸ List.mem_singleton_self child
    split at failed
    · next below =>
      have refused := refusedAt_of_onlyChild failed
      exact refused.evidence_passed (fun x => blamed_of_toExpr) member (by rw [tag, below]; rfl)
        (by rw [below]; rfl) (by rw [below]; rfl)
    · next below =>
      have refused := refusedAt_of_onlyChild failed
      exact refused.evidence_passed (fun x => blamed_of_toCondition) member
        (by rw [tag, below]; rfl) (by rw [below]; rfl) (by rw [below]; rfl)
    · next notKSafe notControl =>
      have direct : passes false e.tag child.tag = false := by
        rw [tag]
        cases below : child.tag with
        | kSafe => exact absurd below notKSafe
        | control => exact absurd below notControl
        | _ => rfl
      have blamed : Blamed false limit limit .booleanFormula (.kSafe :: .control :: formulaTags)
          child fault :=
        (blamed_of_toCondition failed).imp_left fun ⟨same, other⟩ =>
          ⟨same, by simpa using ⟨notKSafe, notControl, other⟩⟩
      exact blamed.evidence .self member wants (.operand wants (.inl rfl) member direct)

/-- There is evidence of the fault for which the content of a `formula` element is refused as a
statistical query. -/
theorem evidence_of_statisticalFormula {settings : Sampling} (tag : e.tag = .formula)
    (failed : (statisticalFormula limit settings e).result = .error fault) :
    Evidence true limit (limit + 1) e fault := by
  have wants : wanted true e.tag = some (.statisticalFormula, [.eventually, .always]) := by
    rw [tag]
    rfl
  rw [statisticalFormula, result_bind_eq_error_iff] at failed
  rcases failed with failed | ⟨child, children, failed⟩
  · exact (refused_of_onlyChild failed).evidence .self (by rw [tag]; rfl)
  · rw [onlyChild_eq_ok_iff] at children
    have member : child ∈ e.children := children ▸ List.mem_singleton_self child
    split at failed
    · next below =>
      have refused := refusedAt_of_onlyChild failed
      exact refused.evidence_passed (fun x => blamed_of_toCondition) member
        (by rw [tag, below]; rfl) (by rw [below]; rfl) (by rw [below]; rfl)
    · next below =>
      have refused := refusedAt_of_onlyChild failed
      exact refused.evidence_passed (fun x => blamed_of_toCondition) member
        (by rw [tag, below]; rfl) (by rw [below]; rfl) (by rw [below]; rfl)
    · next notEventually notAlways =>
      obtain rfl := Except.error.inj failed
      exact .kind .self member wants (by simpa using ⟨notEventually, notAlways⟩)

/-- The observables are refused for one of the named `watch` children, in which there is evidence of
the fault. -/
theorem evidence_of_observables (failed : (observables limit e).result = .error fault) :
    ∃ watch ∈ e.children, watch.tag = .watch ∧ (∃ name, watch.get? "name" = some name)
      ∧ Evidence true limit (limit + 1) watch fault := by
  rw [result_observables] at failed
  obtain ⟨⟨name, watch⟩, member, failed⟩ := Traced.exists_error_of_mapM failed
  rw [map_eq_pure_bind, watchedExpr, bind_assoc] at failed
  obtain ⟨member, tag, named⟩ := mem_namedWatches_iff.1 member
  have refused := refusedAt_of_onlyChild failed
  refine ⟨watch, member, tag, ⟨name, named⟩, ?_⟩
  apply refused.evidence_self (fun x => blamed_of_toExpr) (by rw [tag]; rfl) (by rw [tag]; rfl)
    (.inr rfl)
  intro below
  rw [tag]
  rfl

end Roots

end PetriQuery.Grammar
