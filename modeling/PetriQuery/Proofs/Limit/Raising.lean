import PetriQuery.Proofs.Limit.Readers
import PetriQuery.Proofs.Session

/-!
# Raising the limit on nesting

A higher limit changes nothing but refusals for nesting: a tree that is read under a limit is read
to the same items under each higher one, and a tree that is refused under a limit for any other
reason is refused for that reason, at the same place, under each higher one. Where a fault about
nesting and another one are both in a tree, the one that is found first is reported, and a higher
limit only takes faults about nesting away.

Of an element, what counts is how many levels are left of the limit, so a depth and a limit may be
raised together.

Main result: `Session.raised_limit_keeps_answers`.
-/

set_option autoImplicit false

namespace PetriQuery

open Document (Element)
open Traced (SameUnless sameUnless_self)

namespace Grammar

open Query (Condition Sampling)

section Raised

variable {limit limit' : Nat} (le : limit ≤ limit')

include le

/-! ## Parts of a property -/

theorem sameUnless_formula (e : Element) :
    SameUnless (Exceeds limit) (formula limit e) (formula limit' e) := by
  -- The count of levels starts anew in all cases, from the limit of each run.
  rw [formula_eq_over, formula_eq_over]
  exact sameUnless_formulaOver (fun x _ => sameUnless_toCondition le x)
    fun x _ => sameUnless_toExpr le x

theorem sameUnless_statisticalFormula (settings : Sampling) (e : Element) :
    SameUnless (Exceeds limit) (statisticalFormula limit settings e)
      (statisticalFormula limit' settings e) := by
  rw [statisticalFormula_eq_over, statisticalFormula_eq_over]
  exact sameUnless_statisticalFormulaOver (fun x _ => sameUnless_toCondition le x) settings

theorem sameUnless_observables (e : Element) :
    SameUnless (Exceeds limit) (observables limit e) (observables limit' e) := by
  rw [observables_eq_over, observables_eq_over]
  exact sameUnless_observablesOver fun x _ => sameUnless_toExpr le x

/-! ## Properties -/

omit le in
/-- The cause of the failure is that the limit is exceeded. -/
def FailsFor (limit : Nat) (failure : Failure) : Prop := failure.cause = .grammar (.tooDeep limit)

omit le in
/-- A fault about the limit is the cause of a failure for the limit, in whatever context. -/
theorem failsFor_failureIn {context : Context} (fault : Fault) (h : Exceeds limit fault) :
    FailsFor limit (failureIn context fault) := congrArg Cause.grammar h

theorem sameUnless_attachObservables (id : String) (query : Condition)
    (observations? : Option Element) :
    SameUnless (FailsFor limit) (attachObservables limit id query observations?)
      (attachObservables limit' id query observations?) := by
  cases observations? with
  | none => exact sameUnless_self _
  | some observations =>
    exact ((sameUnless_observables le observations).mapError failsFor_failureIn).bind
      fun _ _ => sameUnless_self _

theorem sameUnless_propertyQuery (parts : Parts) (id : String) (body : Element) :
    SameUnless (FailsFor limit) (propertyQuery limit parts id body)
      (propertyQuery limit' parts id body) := by
  rw [propertyQuery, propertyQuery]
  cases parts.smc? with
  | none => exact (sameUnless_formula le body).mapError failsFor_failureIn
  | some smc =>
    exact (sameUnless_self _).bind fun made _ =>
      ((sameUnless_statisticalFormula le made body).mapError failsFor_failureIn).bind fun query _ =>
        sameUnless_attachObservables le id query _

theorem sameUnless_property (e : Element) :
    SameUnless (FailsFor limit) (property limit e) (property limit' e) := by
  rw [property, property]
  by_cases other : e.tag ≠ .property
  · rw [if_pos other, if_pos other]
    exact sameUnless_self _
  · rw [if_neg other, if_neg other]
    refine (sameUnless_self (scan e)).bind fun parts _ => ?_
    cases parts.id?.filter fun id => id ≠ "" with
    | none => exact sameUnless_self _
    | some id =>
      refine (sameUnless_self (Traced.note _ _)).bind fun _ _ => ?_
      by_cases marked : (!parts.isSupported) = true
      · rw [if_pos marked, if_pos marked]
        exact sameUnless_self _
      · rw [if_neg marked, if_neg marked]
        cases parts.formula? with
        | none => exact sameUnless_self _
        | some body =>
          exact (sameUnless_propertyQuery le parts id body).bind fun _ _ => sameUnless_self _

/-! ## Sets of properties -/

theorem sameUnless_selectedProperty (selection : List Nat) (child : Element) (index : Nat) :
    SameUnless (FailsFor limit) (selectedProperty ⟨selection, limit⟩ child index)
      (selectedProperty ⟨selection, limit'⟩ child index) := by
  have same : Options.selects ⟨selection, limit'⟩ index
      = Options.selects ⟨selection, limit⟩ index := rfl
  rw [selectedProperty, selectedProperty, same]
  by_cases selected : Options.selects ⟨selection, limit⟩ index = true
  · rw [if_pos selected, if_pos selected]
    exact (sameUnless_property le child).mapError fun _ fails => fails
  · rw [if_neg selected, if_neg selected]
    exact sameUnless_self _

theorem sameUnless_propertySet (selection : List Nat) (root : Element) :
    SameUnless (FailsFor limit) (propertySet ⟨selection, limit⟩ root)
      (propertySet ⟨selection, limit'⟩ root) :=
  (sameUnless_self (enterSet root)).bind fun _ _ =>
    (SameUnless.mapM fun entry _ =>
      sameUnless_selectedProperty le selection entry.1 entry.2).bind fun _ _ => sameUnless_self _

end Raised

/-! ## Depths -/

/-- The computations are the same, or each of them stops at its own limit. -/
def SameUpToLimit {α : Type} (limit limit' : Nat) (x y : Traced Fault α) : Prop :=
  y = x ∨ (x.result = .error (.tooDeep limit) ∧ y.result = .error (.tooDeep limit'))

/-- Computations that are the same unless the one stops, and unless the other one stops, are the
same or both stop. -/
theorem sameUpToLimit_of_sameUnless {α : Type} {limit limit' : Nat} {x y : Traced Fault α}
    (first : SameUnless (Exceeds limit) x y) (second : SameUnless (Exceeds limit') y x) :
    SameUpToLimit limit limit' x y := by
  rcases first with same | ⟨_, failed, rfl⟩
  · exact Or.inl same
  · rcases second with same | ⟨_, failed', rfl⟩
    · exact Or.inl same.symm
    · exact Or.inr ⟨failed, failed'⟩

/-- With as many levels left, an element is read alike under any two limits. -/
theorem sameUpToLimit_readers (limit limit' left : Nat) (e : Element) :
    SameUpToLimit limit limit' (toCondition limit left e) (toCondition limit' left e)
      ∧ SameUpToLimit limit limit' (toExpr limit left e) (toExpr limit' left e) := by
  have le := Nat.le_refl left
  exact ⟨sameUpToLimit_of_sameUnless (sameUnless_toCondition le e) (sameUnless_toCondition le e),
    sameUpToLimit_of_sameUnless (sameUnless_toExpr le e) (sameUnless_toExpr le e)⟩

end Grammar

/-! ## Sessions -/

namespace Session

open Grammar (FailsFor SameUpToLimit sameUnless_propertySet sameUpToLimit_readers toCondition
  toExpr)

/-- The session with another limit on nesting. -/
def withLimit (session : Session) (limit : Nat) : Session :=
  ⟨⟨session.options.selected, limit⟩, session.items⟩

/-- A tree that is not refused for the limit is read alike under a higher one: the call leaves the
same items, the same log and the same answer. -/
theorem addTree_withLimit_eq {limit limit' : Nat} (le : limit ≤ limit') (session : Session)
    (root : Element)
    (goesOn : ∀ failure, ((session.withLimit limit).addTree root).2.result = .error failure →
      ¬ FailsFor limit failure) :
    ((session.withLimit limit').addTree root).1.items
        = ((session.withLimit limit).addTree root).1.items
      ∧ ((session.withLimit limit').addTree root).2
        = ((session.withLimit limit).addTree root).2 := by
  -- Only the reading of the set knows the limit. What is held and logged follows from its end.
  simp only [addTree_eq, Traced.result_ending_eq_error_iff] at goesOn ⊢
  have same := (sameUnless_propertySet le session.options.selected root).eq goesOn
  rw [withLimit, withLimit, same]
  refine ⟨?_, rfl⟩
  cases (Grammar.propertySet ⟨session.options.selected, limit⟩ root).result <;> rfl

/-- **A higher limit on nesting changes no answer but that the limit is exceeded.** A tree that is
read under a limit is read to the same items under every higher limit. A tree that is refused under
a limit, but not because of it, is refused with the same failure under every higher limit, and the
items stay. At the depth `depth`, `limit - depth` levels are left: an element is read there as it is
read deeper by a number under a limit that is higher by that number, or stops at the limit both
times. -/
theorem raised_limit_keeps_answers {limit limit' : Nat} (le : limit ≤ limit') (session : Session)
    (root : Element) :
    (((session.withLimit limit).addTree root).2.result = .ok () →
        ((session.withLimit limit').addTree root).2.result = .ok ()
        ∧ ((session.withLimit limit').addTree root).1.items
          = ((session.withLimit limit).addTree root).1.items)
      ∧ (∀ failure, ((session.withLimit limit).addTree root).2.result = .error failure →
          failure.cause ≠ .grammar (.tooDeep limit) →
          ((session.withLimit limit').addTree root).2.result = .error failure
          ∧ ((session.withLimit limit').addTree root).1.items
            = ((session.withLimit limit).addTree root).1.items)
      ∧ ∀ (depth more : Nat) (e : Element),
        SameUpToLimit limit (limit + more) (toCondition limit (limit - depth) e)
            (toCondition (limit + more) (limit + more - (depth + more)) e)
          ∧ SameUpToLimit limit (limit + more) (toExpr limit (limit - depth) e)
            (toExpr (limit + more) (limit + more - (depth + more)) e) := by
  refine ⟨?_, ?_, ?_⟩
  · intro succeeded
    obtain ⟨items, ends⟩ := addTree_withLimit_eq le session root
      fun failure failed => by rw [succeeded] at failed; cases failed
    exact ⟨ends ▸ succeeded, items⟩
  · intro failure failed other
    obtain ⟨items, ends⟩ := addTree_withLimit_eq le session root
      fun failure' failed' => by rw [failed] at failed'; cases failed'; exact other
    exact ⟨ends ▸ failed, items⟩
  · intro depth more e
    rw [Nat.add_sub_add_right]
    exact sameUpToLimit_readers limit (limit + more) (limit - depth) e

/-- A negation of a formula without parts takes two levels. -/
def tooDeepForOne : Element := .mk .negation "" .empty [.mk .deadlock "" .empty []]

theorem raised_limit_keeps_answers_of_samples :
    1 ≤ 3
      ∧ (((start .default).withLimit 1).addTree readable).2.result = .ok ()
      ∧ (((start .default).withLimit 3).addTree readable).2.result = .ok ()
      ∧ (((start .default).withLimit 3).addTree readable).1.items
        = [⟨"q0", some (.truth true), .ok⟩]
      ∧ (((start .default).withLimit 1).addTree unreadable).2.result
        = .error ⟨[.property 1, .formula "q1"], .grammar (.wrongArity "integer-lt" (.exactly 2) 0)⟩
      ∧ (((start .default).withLimit 3).addTree unreadable).2.result
        = .error ⟨[.property 1, .formula "q1"], .grammar (.wrongArity "integer-lt" (.exactly 2) 0)⟩
      ∧ (((start .default).withLimit 3).addTree unreadable).1.items = []
      ∧ (toCondition 1 (1 - 0) tooDeepForOne).result = .error (.tooDeep 1)
      ∧ SameUpToLimit 1 5 (toCondition 1 (1 - 0) tooDeepForOne)
        (toCondition 5 (5 - 4) tooDeepForOne) := by
  have le : 1 ≤ 3 := by decide
  have read : (((start .default).withLimit 1).addTree readable).2.result = .ok () := by rfl
  have refused : (((start .default).withLimit 1).addTree unreadable).2.result
      = .error ⟨[.property 1, .formula "q1"],
          .grammar (.wrongArity "integer-lt" (.exactly 2) 0)⟩ := by
    rfl
  obtain ⟨read', items⟩ := (raised_limit_keeps_answers le (start .default) readable).1 read
  obtain ⟨refused', items'⟩ :=
    (raised_limit_keeps_answers le (start .default) unreadable).2.1 _ refused (by decide)
  have deeper := ((raised_limit_keeps_answers le (start .default) readable).2.2 0 4
    tooDeepForOne).1
  exact ⟨le, read, read', items.trans (by rfl), refused, refused', items'.trans (by rfl), by rfl,
    deeper⟩

end Session

end PetriQuery
