import PetriQuery.Proofs.Grammar.Diagnosis
import PetriQuery.Proofs.Grammar.Parts
import PetriQuery.Proofs.Grammar.Root
import PetriQuery.Proofs.Grammar.Settings
import PetriQuery.Proofs.Session

/-!
# Failures tell the truth

A tree that is refused is refused for something that is wrong with it. The failure names the first
selected property that is refused, its contexts name the id of that property, and what it says of
the property is true (`PropertyFault`): of its kind, of its id and its formula as children, of the
attributes of its settings, and, with the evidence that the readers of formulae leave, of what
stands in its formula and its observables.
-/

set_option autoImplicit false

namespace PetriQuery

/-- The id of a property that a context names. -/
def Context.id? : Context → Option String
  | .settings id | .formula id | .observables id => some id
  | _ => none

open Document (Element)
open Grammar

namespace Grammar

/-! ## Properties -/

/-- What the fault says of the property is true, and its contexts name what was read of it. -/
inductive PropertyFault (limit : Nat) (e : Element) : List Context → Fault → Prop
  | notProperty : e.tag ≠ .property → PropertyFault limit e [] (.notProperty e.name)
  | missingId : e.tag = .property → HasNoId e → PropertyFault limit e [] .missingId
  | missingFormula {id : String} :
      IsRead e id → (∀ child ∈ e.children, child.tag ≠ .formula) →
      PropertyFault limit e [] (.missingFormula id)
  | settings {id key value : String} {smc : Element} :
      IsRead e id → IsLastChild e .smc smc → smc.get? key = some value → IsBadSetting key value →
      PropertyFault limit e [.settings id] (.invalidAttribute key value)
  | formula {id : String} {body : Element} {statistical : Bool} {fault : Fault} :
      IsRead e id → IsLastChild e .formula body →
      (statistical = true ↔ ∃ child ∈ e.children, child.tag = .smc) →
      Evidence statistical limit (limit + 1) body fault →
      PropertyFault limit e [.formula id] fault
  | observables {id name : String} {observations watch : Element} {fault : Fault} :
      IsRead e id → (∃ child ∈ e.children, child.tag = .smc) →
      IsLastChild e .observations observations → watch ∈ observations.children →
      watch.tag = .watch → watch.get? "name" = some name →
      Evidence true limit (limit + 1) watch fault → PropertyFault limit e [.observables id] fault

section

variable {limit : Nat} {e : Element} {failure : Failure}

/-- What a property that is read is refused for. -/
theorem propertyFault_of_propertyQuery {id : String} {body : Element} (isRead : IsRead e id)
    (formula : IsLastChild e .formula body)
    (failed : (propertyQuery limit (partsOf e) id body).result = .error failure) :
    ∃ fault, failure.cause = .grammar fault ∧ PropertyFault limit e failure.contexts fault := by
  have bodyTag := formula.mem.2
  rcases propertyQuery_eq_error_iff.1 failed with ⟨none, fault, part, rfl⟩ |
    ⟨smc, lastSmc, ⟨fault, part, rfl⟩ | ⟨made, -, ⟨fault, part, rfl⟩ |
      ⟨bare, -, observations, fault, lastObservations, part, rfl⟩⟩⟩
  · have plain : false = true ↔ ∃ child ∈ e.children, child.tag = .smc := by
      simpa using none
    exact ⟨fault, rfl, .formula isRead formula plain (evidence_of_formula bodyTag part)⟩
  · obtain ⟨-, key, value, -, has, bad, rfl, -⟩ := settings_eq_error_iff.1 part
    exact ⟨_, rfl, .settings isRead lastSmc has bad⟩
  · have statistical : true = true ↔ ∃ child ∈ e.children, child.tag = .smc :=
      iff_of_true rfl ⟨smc, lastSmc.mem⟩
    have evidence := evidence_of_statisticalFormula bodyTag part
    exact ⟨fault, rfl, .formula isRead formula statistical evidence⟩
  · obtain ⟨watch, member, tag, ⟨name, named⟩, evidence⟩ := evidence_of_observables part
    exact ⟨fault, rfl, .observables isRead ⟨smc, lastSmc.mem⟩ lastObservations member tag named
      evidence⟩

/-- A property is refused for a fault that it has. -/
theorem propertyFault_of_property (failed : (property limit e).result = .error failure) :
    ∃ fault, failure.cause = .grammar fault ∧ PropertyFault limit e failure.contexts fault := by
  rcases property_eq_error_iff.1 failed with ⟨tag, rfl⟩ | ⟨tag, noId, rfl⟩
    | ⟨id, isRead, ⟨noFormula, rfl⟩ | ⟨body, formula, failed⟩⟩
  · exact ⟨_, rfl, .notProperty tag⟩
  · exact ⟨_, rfl, .missingId tag noId⟩
  · exact ⟨_, rfl, .missingFormula isRead noFormula⟩
  · exact propertyFault_of_propertyQuery isRead formula failed

/-- A tree is refused for its own name or for a fault of one of its children. -/
theorem exists_fault_of_propertySet {options : Options} {root : Element}
    (refused : (propertySet options root).result = .error failure) :
    ∃ fault, failure.cause = .grammar fault
      ∧ (fault = .unexpectedRoot root.name
        ∨ ∃ child ∈ root.children, ∃ contexts,
          PropertyFault options.maxDepth child contexts fault) := by
  by_cases set : root.tag = .propertySet
  · obtain ⟨index, child, inner, member, -, failed, rfl, -⟩ :=
      (propertySet_eq_error_iff_of_set set).1 refused
    obtain ⟨fault, cause, has⟩ := propertyFault_of_property failed
    exact ⟨fault, cause, .inr ⟨child, List.mem_of_getElem? member, _, has⟩⟩
  · rcases propertySet_eq_error_iff.1 refused with ⟨-, rfl⟩ | ⟨set', -⟩
    · exact ⟨_, rfl, .inl rfl⟩
    · exact absurd set' set

/-- No evidence in a formula is about a property as a whole. -/
theorem Evidence.ne {statistical : Bool} {levels : Nat} {fault : Fault}
    (h : Evidence statistical limit levels e fault) :
    fault ≠ .missingId ∧ ∀ name, fault ≠ .notProperty name := by
  cases h <;> exact ⟨nofun, nofun⟩

/-- The contexts of a fault of a property name the id of the property. -/
theorem PropertyFault.hasId {contexts : List Context} {fault : Fault}
    (h : PropertyFault limit e contexts fault) {context : Context} (member : context ∈ contexts) :
    ∀ id, context.id? = some id → HasId e id := by
  intro id names
  cases h with
  | notProperty _ | missingId _ _ | missingFormula _ _ => cases member
  | settings isRead _ _ _ | formula isRead _ _ _ | observables isRead _ _ _ _ _ _ =>
    obtain rfl := List.mem_singleton.1 member
    obtain rfl := Option.some.inj names
    exact isRead.2.1

/-- Exactly what is no property is refused for its kind, by its name. -/
theorem notProperty_iff {contexts : List Context} {fault : Fault} {name : String}
    (failed : (property limit e).result = .error ⟨contexts, .grammar fault⟩)
    (h : PropertyFault limit e contexts fault) :
    fault = .notProperty name ↔ e.tag ≠ .property ∧ name = e.name := by
  constructor
  · rintro rfl
    cases h with
    | notProperty tag => exact ⟨tag, rfl⟩
    | formula _ _ _ evidence | observables _ _ _ _ _ _ evidence =>
      exact absurd rfl (evidence.ne.2 name)
  · rintro ⟨tag, rfl⟩
    rw [property_eq_error_iff.2 (.inl ⟨tag, rfl⟩)] at failed
    cases failed
    rfl

/-- Exactly a property without an id is refused for that. -/
theorem missingId_iff {contexts : List Context} {fault : Fault}
    (failed : (property limit e).result = .error ⟨contexts, .grammar fault⟩)
    (h : PropertyFault limit e contexts fault) :
    fault = .missingId ↔ e.tag = .property ∧ HasNoId e := by
  constructor
  · rintro rfl
    cases h with
    | missingId tag noId => exact ⟨tag, noId⟩
    | formula _ _ _ evidence | observables _ _ _ _ _ _ evidence =>
      exact absurd rfl evidence.ne.1
  · rintro ⟨tag, noId⟩
    rw [property_eq_error_iff.2 (.inr (.inl ⟨tag, noId, rfl⟩))] at failed
    cases failed
    rfl

end

end Grammar

/-! ## Trees -/

/-- **A tree that is refused has the fault for which it is refused.** Either it is no set of
properties and the failure says how it is called, or the failure names the first selected property
that is refused. Its contexts then name the id of that property, if any, it is said to be no
property or to have no id exactly if that is so, and whatever else is said of it is true. -/
theorem Session.refusal_is_truthful {session : Session} {root : Element} {failure : Failure}
    (refused : (session.addTree root).2.result = .error failure) :
    (root.tag ≠ .propertySet ∧ failure = ⟨[], .grammar (.unexpectedRoot root.name)⟩)
      ∨ (root.tag = .propertySet
        ∧ ∃ (index : Nat) (child : Element) (contexts : List Context) (fault : Fault),
          failure = ⟨.property index :: contexts, .grammar fault⟩
          ∧ root.children[index]? = some child ∧ Selected session.options.selected index
          ∧ (property session.options.maxDepth child).result = .error ⟨contexts, .grammar fault⟩
          ∧ (∀ earlier < index, ∀ child', root.children[earlier]? = some child' →
            Selected session.options.selected earlier →
            ∃ item, (property session.options.maxDepth child').result = .ok item)
          ∧ (∀ context ∈ contexts, ∀ id, context.id? = some id → HasId child id)
          ∧ (∀ name, fault = .notProperty name ↔ child.tag ≠ .property ∧ name = child.name)
          ∧ (fault = .missingId ↔ child.tag = .property ∧ HasNoId child)
          ∧ PropertyFault session.options.maxDepth child contexts fault) := by
  rw [addTree_eq, Traced.result_ending_eq_error_iff] at refused
  by_cases set : root.tag = .propertySet
  · obtain ⟨index, child, ⟨contexts, cause⟩, member, selected, failed, rfl, before⟩ :=
      (propertySet_eq_error_iff_of_set set).1 refused
    obtain ⟨fault, rfl, has⟩ := propertyFault_of_property failed
    refine .inr ⟨set, index, child, contexts, fault, rfl, member, selected, failed, before, ?_, ?_,
      missingId_iff failed has, has⟩
    · exact fun context named => has.hasId named
    · exact fun name => notProperty_iff failed has
  · rcases propertySet_eq_error_iff.1 refused with ⟨-, rfl⟩ | ⟨set', -⟩
    · exact .inl ⟨set, rfl⟩
    · exact absurd set' set

/-- A set with a property whose formula compares a place without a name with a constant, behind an
element that is no property. -/
def namelessPlace : Element :=
  .mk .propertySet "" .empty
    [.mk (.other "query") "" .empty [],
      Session.sampleProperty " q1 "
        (.mk .negation "" .empty
          [.mk .invariant "" .empty
            [.mk .integerLe "" .empty
              [.mk .place " " .empty [], .mk .integerConstant "1" .empty []]]])]

theorem Session.refusal_is_truthful_of_namelessPlace :
    ((start ⟨[1], 3⟩).addTree namelessPlace).2.result
        = .error ⟨[.property 1, .formula "q1"], .grammar .emptyPlace⟩
      ∧ ∃ child, namelessPlace.children[1]? = some child ∧ HasId child "q1"
        ∧ PropertyFault 3 child [.formula "q1"] .emptyPlace := by
  have refused : ((start ⟨[1], 3⟩).addTree namelessPlace).2.result
      = .error ⟨[.property 1, .formula "q1"], .grammar .emptyPlace⟩ := by rfl
  refine ⟨refused, ?_⟩
  rcases refusal_is_truthful refused with ⟨-, same⟩
    | ⟨-, index, child, contexts, fault, same, member, -, -, -, named, -, -, has⟩
  · cases same
  · cases same
    exact ⟨child, member, named _ List.mem_cons_self "q1" rfl, has⟩

end PetriQuery
