import PetriQuery.Proofs.Grammar.Positions
import PetriQuery.Proofs.Truthfulness

/-!
# Branches that are never taken

A run that takes children by their positions would end without a value and without a fault at a
position where there is no child. It never does: whatever is read by positions, a single pair of
operands or a whole set of properties, is read as it is by patterns (`Finds`).

Two faults are there for cases that do not occur: that an element is no comparison, which no element
is blamed for that is read as one, and that a query with observables is not statistical.

Main result: `Session.branches_are_never_taken`.
-/

set_option autoImplicit false

namespace PetriQuery

namespace Grammar

open Document (Element Tag)

/-! ## Positions that are not missing -/

/-- The computation by positions is the other one, and no position is missing. -/
def Finds {ε α : Type} (x : Traced (Halt ε) α) (y : Traced ε α) : Prop :=
  x = lift y ∧ ∀ position, x.result ≠ .error (.missing position)

/-- A computation by positions is another one if it is that one, lifted: there are no positions in
that one that could be missing. -/
theorem finds_of_eq {ε α : Type} {x : Traced (Halt ε) α} {y : Traced ε α} (same : x = lift y) :
    Finds x y := by
  refine ⟨same, ?_⟩
  intro position missing
  rw [same, lift, Traced.result_mapError, mapError_eq_error_iff] at missing
  obtain ⟨reason, -, other⟩ := missing
  cases other

/-! ## Faults that do not occur -/

/-- Nothing is to be a comparison, so nothing is blamed for not being one. -/
theorem wanted_ne_comparison {statistical : Bool} {tag : Tag} {kinds : List Tag} :
    wanted statistical tag ≠ some (.comparison, kinds) := by
  intro wants
  cases tag with
  | formula => cases statistical <;> cases wants
  | _ => cases wants

/-- The faults that an element can have. That an element is no comparison, and that a query with
observables is not statistical, are none of them. -/
def Fault.IsPossible : Fault → Prop
  | .unexpectedTag _ .comparison | .notStatistical _ => False
  | _ => True

/-- Only a possible fault leaves evidence. -/
theorem Evidence.isPossible {statistical : Bool} {limit levels : Nat} {e : Element} {fault : Fault}
    (h : Evidence statistical limit levels e fault) : fault.IsPossible := by
  cases h with
  | @kind _ _ construct _ _ _ wants _ =>
    cases construct with
    | comparison => exact wanted_ne_comparison wants
    | _ => trivial
  | _ => trivial

/-- A property has only possible faults. -/
theorem PropertyFault.isPossible {limit : Nat} {e : Element} {contexts : List Context}
    {fault : Fault} (h : PropertyFault limit e contexts fault) : fault.IsPossible := by
  cases h with
  | formula _ _ _ evidence | observables _ _ _ _ _ _ evidence => exact evidence.isPossible
  | _ => trivial

/-- A tree is refused for a possible fault. -/
theorem exists_possible_of_propertySet {options : Options} {root : Element} {failure : Failure}
    (refused : (propertySet options root).result = .error failure) :
    ∃ fault, failure.cause = .grammar fault ∧ fault.IsPossible := by
  obtain ⟨fault, cause, rfl | ⟨child, -, contexts, has⟩⟩ := exists_fault_of_propertySet refused
  · exact ⟨_, cause, trivial⟩
  · exact ⟨fault, cause, has.isPossible⟩

end Grammar

namespace Session

open Document (Element)
open Grammar

/-- **The branches for cases that cannot occur are never taken.** Children that are taken by their
positions are there, whatever element they are taken of and however they are read then: the only
child, the operands of pairs, comparisons and `until`, and what is behind the first operand of a
chain. So a tree that is read by positions throughout, down to its last expression, is read as it
is by patterns, under whatever options. A tree that is refused, behind whatever items, is refused
for a fault of the grammar, and neither for an element that is no comparison nor for a query that is
not statistical. -/
theorem branches_are_never_taken (session : Session) (root : Element) :
    (∀ e, Finds (onlyChildAt e) (onlyChild e))
      ∧ (∀ read e, Finds (pairAt (fun x => lift (read x)) e) (pair read e))
      ∧ (∀ expression e,
          Finds (comparisonAt (fun x => lift (expression x)) e) (comparison expression e))
      ∧ (∀ read e, Finds (untilOperandsAt (fun x => lift (read x)) e) (untilOperands read e))
      ∧ (∀ read op e, Finds (combineAt (fun x => lift (read x)) op e) (combine read op e))
      ∧ Finds (propertySetAt session.options root) (propertySet session.options root)
      ∧ ∀ failure, (session.addTree root).2.result = .error failure →
          ∃ fault, failure.cause = .grammar fault
            ∧ (∀ name, fault ≠ .unexpectedTag name .comparison)
            ∧ ∀ id, fault ≠ .notStatistical id := by
  refine ⟨?_, ?_, ?_, ?_, ?_, ?_, ?_⟩
  · exact fun e => finds_of_eq (onlyChildAt_eq e)
  · exact fun read e => finds_of_eq (pairAt_eq read e)
  · exact fun expression e => finds_of_eq (comparisonAt_eq e expression)
  · exact fun read e => finds_of_eq (untilOperandsAt_eq read e)
  · exact fun read op e => finds_of_eq (combineAt_eq read e op)
  · exact finds_of_eq (propertySetAt_eq session.options root)
  · intro failure refused
    rw [addTree_eq, Traced.result_ending_eq_error_iff] at refused
    obtain ⟨fault, cause, possible⟩ := exists_possible_of_propertySet refused
    refine ⟨fault, cause, ?_, ?_⟩
    · rintro name rfl
      exact possible
    · rintro id rfl
      exact possible

/-- A set with a statistical property that has a comparison for an observable. -/
def comparedObservable : Element :=
  .mk .propertySet "" .empty
    [.mk .property "" .empty
      [.mk .id "q" .empty [], .mk .smc "" .empty [],
        .mk .formula "" .empty [.mk .eventually "" .empty [.mk .deadlock "" .empty []]],
        .mk .observations "" .empty
          [.mk .watch "" (.ofList [("name", "w")]) [.mk .integerLt "" .empty []]]]]

theorem branches_are_never_taken_of_comparedObservable :
    ((start .default).addTree comparedObservable).2.result
        = .error ⟨[.property 0, .observables "q"],
            .grammar (.unexpectedTag "integer-lt" .integerExpression)⟩
      ∧ ∃ fault, Cause.grammar (.unexpectedTag "integer-lt" .integerExpression) = .grammar fault
        ∧ (∀ name, fault ≠ .unexpectedTag name .comparison)
        ∧ ∀ id, fault ≠ .notStatistical id := by
  have refused : ((start .default).addTree comparedObservable).2.result
      = .error ⟨[.property 0, .observables "q"],
          .grammar (.unexpectedTag "integer-lt" .integerExpression)⟩ := by
    rfl
  obtain ⟨-, -, -, -, -, -, faults⟩ := branches_are_never_taken (start .default) comparedObservable
  exact ⟨refused, faults _ refused⟩

end Session

end PetriQuery
