import PetriQuery.Proofs.Document.Building
import PetriQuery.Proofs.Refusal

/-!
# Names of elements

An element keeps the kind that its name is read into and not the name. Nothing is lost by that: the
kind of a name has that name, so that different names have different kinds (`kinds_rename_names`).

The builder compares an end tag with the name of the kind of the innermost open element. The names
of the open elements are those of the start tags that have not been ended (`Built.names_eq`), so the
comparison is one with the name of the start tag.
-/

set_option autoImplicit false

namespace PetriQuery.Document

open Markup (Event)

/-! ## Open names -/

/-- The names that are open after an event, from those that are open before it. -/
def openAfter (names : List String) : Event → List String
  | .start name _ => name :: names
  | .close _ => names.tail
  | _ => names

/-- The names of the start tags that no end tag has ended, the innermost one first. -/
def openNames (events : List Event) : List String := events.foldl openAfter []

/-- Only start tags and end tags change what is open. -/
theorem openAfter_eq_self (names : List String) (event : Event)
    (noStart : ∀ name attributes, event ≠ .start name attributes)
    (noClose : ∀ name, event ≠ .close name) : openAfter names event = names := by
  cases event with
  | start name attributes => exact absurd rfl (noStart name attributes)
  | close name => exact absurd rfl (noClose name)
  | _ => rfl

/-- Behind a content is open what is open before it. -/
theorem SpellsContent.foldl_openAfter {levels : Nat} {events : List Event} {text : String}
    {children : List Element} (h : SpellsContent levels events text children)
    (names : List String) : events.foldl openAfter names = names :=
  h.foldl_eq_self (fun _ _ _ => rfl) openAfter_eq_self names

/-- What may stand beside the root element opens nothing. -/
theorem foldl_openAfter_of_isBeside {events : List Event} (h : ∀ event ∈ events, IsBeside event)
    (names : List String) : events.foldl openAfter names = names := by
  induction events with
  | nil => rfl
  | cons event events ih =>
    obtain ⟨head, tail⟩ := List.forall_mem_cons.1 h
    have kept : openAfter names event = names := by
      apply openAfter_eq_self names event
      · rintro name attributes rfl
        exact head
      · rintro name rfl
        exact head
    rw [List.foldl_cons, kept, ih tail]

/-- Behind a document nothing is open. -/
theorem SpellsDocument.openNames_eq_nil {events : List Event} {root : Element}
    (h : SpellsDocument events root) : openNames events = [] := by
  obtain ⟨before, one, after, rfl, beside, spells, beside'⟩ := h
  rw [openNames, List.foldl_append, List.foldl_append, foldl_openAfter_of_isBeside beside,
    spells.content.foldl_openAfter, foldl_openAfter_of_isBeside beside']

/-- The kinds of the frames have the names of the start tags. -/
theorem Opened.names_eq {events : List Event} {frames : List Frame} (h : Opened events frames) :
    frames.map (fun frame => frame.tag.name) = openNames events := by
  induction h with
  | nil => rfl
  | cons name attributes _ _ content ih =>
    rw [openNames] at ih
    rw [List.map_cons, ih, Tag.name_ofName, openNames, List.foldl_append, List.foldl_cons,
      content.foldl_openAfter, openAfter]

namespace Built

variable {events : List Event} {b : Builder}

/-- The open elements have the names of the start tags that have not been ended. -/
theorem names_eq (h : Built events b) :
    b.opened.map (fun frame => frame.tag.name) = openNames events := by
  cases h with
  | opened beside open_ =>
    rw [open_.names_eq, openNames, openNames, List.foldl_append, foldl_openAfter_of_isBeside beside]
  | ended document => rw [document.openNames_eq_nil, List.map_nil]

/-- An end tag with the name of the start tag is accepted. -/
theorem exists_step_close {name : String} (h : Built events b)
    (named : (openNames events).head? = some name) :
    ∃ b', (b.step (.close name)).result = .ok b' := by
  rw [← h.names_eq] at named
  -- Where an element is open, no root element has ended, so there is a place for the ended element.
  cases h with
  | ended document => cases named
  | @opened before events frames beside open_ =>
    cases frames with
    | nil => cases named
    | cons frame outer =>
      have same : frame.tag.name = name := Option.some.inj named
      rw [Builder.step, result_leave_of_name same]
      cases outer with
      | nil => exact ⟨_, rfl⟩
      | cons parent outer => exact ⟨_, rfl⟩

/-- An end tag with any other name is refused. -/
theorem step_close_of_ne {name : String} (h : Built events b)
    (other : (openNames events).head? ≠ some name) :
    (b.step (.close name)).result = .error (.unexpectedEnd name) := by
  rw [← h.names_eq] at other
  obtain ⟨opened, root?⟩ := b
  cases opened with
  | nil => rfl
  | cons frame outer =>
    exact result_leave_of_not_name fun same => other (congrArg some same)

/-- An end tag is accepted iff it has the name of the start tag. -/
theorem exists_step_close_iff {name : String} (h : Built events b) :
    (∃ b', (b.step (.close name)).result = .ok b') ↔ (openNames events).head? = some name := by
  constructor
  · rintro ⟨b', taken⟩
    by_contra other
    rw [h.step_close_of_ne other] at taken
    cases taken
  · exact h.exists_step_close

/-- An end tag is refused iff it has another name, and then with that name. -/
theorem step_close_eq_error_iff {name : String} {fault : TreeFault} (h : Built events b) :
    (b.step (.close name)).result = .error fault
      ↔ (openNames events).head? ≠ some name ∧ .unexpectedEnd name = fault := by
  constructor
  · intro refused
    have other : (openNames events).head? ≠ some name := by
      intro named
      obtain ⟨b', taken⟩ := h.exists_step_close named
      rw [taken] at refused
      cases refused
    rw [h.step_close_of_ne other] at refused
    exact ⟨other, Except.error.inj refused⟩
  · rintro ⟨other, rfl⟩
    exact h.step_close_of_ne other

end Built

/-- A run goes on behind an end tag iff that has the name of the start tag. -/
theorem exists_run_close_iff (events : List Event) (name : String) :
    (∃ b, ((events ++ [Event.close name]).foldlM Builder.step .initial).result = .ok b)
      ↔ (∃ b, (events.foldlM Builder.step .initial).result = .ok b)
        ∧ (openNames events).head? = some name := by
  constructor
  · rintro ⟨b', run⟩
    rw [List.foldlM_append, Traced.result_bind_eq_ok_iff] at run
    obtain ⟨b, run, taken⟩ := run
    rw [result_foldlM_singleton] at taken
    exact ⟨⟨b, run⟩, (Built.of_run run).exists_step_close_iff.1 ⟨b', taken⟩⟩
  · rintro ⟨⟨b, run⟩, named⟩
    rw [result_foldlM_append run, result_foldlM_singleton]
    exact (Built.of_run run).exists_step_close named

/-- A run ends at an end tag iff it ends before it or the end tag has another name. -/
theorem run_close_eq_error_iff (events : List Event) (name : String) (fault : TreeFault) :
    ((events ++ [Event.close name]).foldlM Builder.step .initial).result = .error fault
      ↔ (events.foldlM Builder.step .initial).result = .error fault
        ∨ (∃ b, (events.foldlM Builder.step .initial).result = .ok b)
          ∧ (openNames events).head? ≠ some name ∧ .unexpectedEnd name = fault := by
  rw [List.foldlM_append, Traced.result_bind_eq_error_iff]
  apply or_congr Iff.rfl
  constructor
  · rintro ⟨b, run, refused⟩
    rw [result_foldlM_singleton, (Built.of_run run).step_close_eq_error_iff] at refused
    exact ⟨⟨b, run⟩, refused⟩
  · rintro ⟨⟨b, run⟩, refused⟩
    refine ⟨b, run, ?_⟩
    rwa [result_foldlM_singleton, (Built.of_run run).step_close_eq_error_iff]

/-- An element outside the language is ended by its own name, and by no name of the language. -/
example : ([.start "formula" [], .start "note" [], .close "formula"].foldlM Builder.step
    .initial).result = .error (.unexpectedEnd "formula") := by rfl

/-- Reading names into kinds only renames them. The name of the kind of a name is that name, so that
names are of one kind iff they are equal, and a kind is found by its name unless it takes a name of
the language for one outside of it. The end tags that the builder accepts are therefore those with
the name of the start tag of the innermost open element, whether it is of the language or not. -/
theorem kinds_rename_names :
    (∀ s, (Tag.ofName s).name = s)
    ∧ (∀ s s', Tag.ofName s = Tag.ofName s' ↔ s = s')
    ∧ (∀ tag, Tag.ofName tag.name = tag ↔ ¬∃ s, Tag.InVocabulary s ∧ tag = .other s)
    ∧ (∀ s tag, Tag.ofName s = tag
      ↔ (s, tag) ∈ Tag.vocabulary ∨ ¬Tag.InVocabulary s ∧ tag = .other s)
    ∧ (∀ (events : List Event) (name : String),
      (∃ b, ((events ++ [Event.close name]).foldlM Builder.step .initial).result = .ok b)
        ↔ (∃ b, (events.foldlM Builder.step .initial).result = .ok b)
          ∧ (openNames events).head? = some name)
    ∧ ∀ (events : List Event) (name : String) (fault : TreeFault),
      ((events ++ [Event.close name]).foldlM Builder.step .initial).result = .error fault
        ↔ (events.foldlM Builder.step .initial).result = .error fault
          ∨ (∃ b, (events.foldlM Builder.step .initial).result = .ok b)
            ∧ (openNames events).head? ≠ some name ∧ .unexpectedEnd name = fault := by
  refine ⟨Tag.name_ofName, fun _ _ => Tag.ofName_inj, fun _ => Tag.ofName_name_iff,
    fun _ _ => Tag.ofName_eq_iff, ?_, ?_⟩
  · intro events name
    exact exists_run_close_iff events name
  · intro events name fault
    exact run_close_eq_error_iff events name fault

end PetriQuery.Document
