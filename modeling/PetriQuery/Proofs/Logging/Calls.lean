import PetriQuery.Proofs.Document.Building
import PetriQuery.Proofs.Logging.Readers
import PetriQuery.Proofs.Truthfulness

/-!
# What is logged as an error

The builder of trees announces its failures as the readers of elements do, with one exception: that
a document has no element at all. Faults of the markup are not announced.

Main facts: a failure that is raised is logged once and at last, up to that exception
(`Session.refusals_are_logged_once`), which occurs (`Session.missing_root_is_not_logged`).
-/

set_option autoImplicit false

namespace PetriQuery

open Traced

/-! ## Trees -/

namespace Document

open Markup (Event Reading)

/-- Faults of the markup are not announced, and neither is that there is no element. -/
def TreeFault.IsAnnounced : TreeFault → Prop
  | .markup _ | .noRoot => False
  | _ => True

namespace Builder

variable (builder : Builder)

theorem announces_enter (frame : Frame) :
    Announces TreeFault.IsAnnounced (builder.enter frame) := by
  refine (announces_note (by decide) _).bind fun _ _ => ?_
  split_ifs with second deep
  · exact announces_refuse trivial _
  · exact announces_refuse trivial _
  · exact announces_pure _

theorem announces_place (element : Element) :
    Announces TreeFault.IsAnnounced (builder.place element) := by
  unfold place
  split
  · exact announces_pure _
  · split_ifs with first
    · exact announces_pure _
    · exact announces_refuse trivial _

theorem announces_leave (name : String) :
    Announces TreeFault.IsAnnounced (builder.leave name) := by
  simp only [leave]
  split
  · exact announces_refuse trivial _
  · split_ifs with same
    · exact (announces_note (by decide) _).bind fun _ _ => announces_place _ _
    · exact announces_refuse trivial _

theorem announces_step (event : Event) : Announces TreeFault.IsAnnounced (builder.step event) := by
  cases event with
  | start name attributes => exact announces_enter builder _
  | close name => exact announces_leave builder name
  | empty name attributes =>
    exact (announces_note (by decide) _).bind fun _ _ => announces_place builder _
  | text content =>
    simp only [step]
    split
    · exact announces_pure _
    · split_ifs with blank
      · exact announces_pure _
      · exact announces_refuse trivial _
  | cdata content =>
    simp only [step]
    split
    · exact announces_pure _
    · exact announces_refuse trivial _
  | comment => exact announces_pure _
  | declaration => exact announces_pure _
  | instruction => exact announces_refuse trivial _
  | doctype => exact announces_refuse trivial _

theorem announces_finish : Announces TreeFault.IsAnnounced builder.finish := by
  unfold finish
  split
  · exact announces_refuse trivial _
  · split
    · exact announces_pure _
    · exact announces_fail id

end Builder

theorem announces_ofEvents (reading : Reading Event) :
    Announces TreeFault.IsAnnounced (Element.ofEvents reading) := by
  unfold Element.ofEvents
  rw [foldFrom_eq_foldlM]
  refine (Announces.foldlM Builder.announces_step _ _).bind fun builder _ => ?_
  split
  · exact announces_fail id
  · exact builder.announces_finish

/-! ### Documents without an element -/

namespace Builder

variable (builder : Builder)

theorem place_ne_noRoot (element : Element) :
    (builder.place element).result ≠ .error .noRoot := by
  unfold place
  intro failed
  split at failed
  · cases failed
  · split_ifs at failed
    cases failed

/-- No step finds that there is no root element. -/
theorem step_ne_noRoot (event : Event) : (builder.step event).result ≠ .error .noRoot := by
  intro failed
  cases event with
  | start name attributes =>
    simp only [step, enter] at failed
    rw [result_bind_of_ok _ (by rfl)] at failed
    split_ifs at failed <;> cases failed
  | close name =>
    simp only [step, leave] at failed
    split at failed
    · cases failed
    · split_ifs at failed
      · rw [result_bind_of_ok _ (by rfl)] at failed
        exact place_ne_noRoot _ _ failed
      · cases failed
  | empty name attributes =>
    rw [step, result_bind_of_ok _ (by rfl)] at failed
    exact builder.place_ne_noRoot _ failed
  | text content =>
    simp only [step] at failed
    split at failed
    · cases failed
    · split_ifs at failed
      cases failed
  | cdata content =>
    simp only [step] at failed
    split at failed <;> cases failed
  | comment | declaration | instruction | doctype => cases failed

/-- No run along events does. -/
theorem foldlM_step_ne_noRoot (events : List Event) :
    (events.foldlM step builder).result ≠ .error .noRoot := by
  induction events generalizing builder with
  | nil => exact fun failed => by cases failed
  | cons event events ih =>
    rw [List.foldlM_cons]
    intro failed
    rcases result_bind_eq_error_iff.1 failed with first | ⟨next, -, rest⟩
    · exact builder.step_ne_noRoot event first
    · exact ih next rest

end Builder

/-- There is no root element in exactly the documents in which nothing stands but what may stand
beside one. -/
theorem ofEvents_eq_noRoot_iff {reading : Reading Event} :
    (Element.ofEvents reading).result = .error .noRoot
      ↔ reading.fault? = none ∧ ∀ event ∈ reading.items, IsBeside event := by
  obtain ⟨items, fault?⟩ := reading
  rw [Element.ofEvents, foldFrom_eq_foldlM]
  constructor
  · intro failed
    rcases result_bind_eq_error_iff.1 failed with failed | ⟨builder, run, failed⟩
    · exact absurd failed (Builder.initial.foldlM_step_ne_noRoot items)
    · cases fault? with
      | some fault => cases failed
      | none =>
        cases Built.of_run run with
        | ended document => cases failed
        | opened beside open_ =>
          cases open_ with
          | nil => exact ⟨rfl, fun event member => beside event (by simpa using member)⟩
          | cons => cases failed
  · rintro ⟨rfl, beside⟩
    have run : (items.foldlM Builder.step .initial).result = .ok ⟨[], none⟩ :=
      result_foldlM_beside beside none
    exact result_bind_of_ok _ run

end Document

/-! ## Calls -/

theorem Document.TreeFault.isAnnounced_iff (fault : Document.TreeFault) :
    Failure.IsAnnounced ⟨[.document], .tree fault⟩ ↔ fault.IsAnnounced := by
  cases fault with
  | _ => simp [Failure.IsAnnounced, Failure.IsRaised, Document.TreeFault.IsAnnounced]

theorem announces_root (call : Call) : Announces Failure.IsAnnounced call.root := by
  cases call with
  | tree root => exact announces_pure root
  | document reading source =>
    exact (Document.announces_ofEvents _).mapError Document.TreeFault.isAnnounced_iff

/-- What a call announces is decided by its failure. -/
theorem announces_call (session : Session) (call : Call) :
    Announces Failure.IsAnnounced (session.call call).2 := by
  rw [Session.call_eq]
  refine Announces.ending ((announces_root call).bind fun root _ => ?_)
  exact Grammar.announces_propertySet session.options root

namespace Session

/-- A document is refused for the lack of a root element iff nothing stands in it but what may stand
beside one. -/
theorem result_call_eq_noRoot_iff (session : Session) (reading : Markup.Options) (source : Source) :
    (session.call (.document reading source)).2.result = .error ⟨[.document], .tree .noRoot⟩
      ↔ (Markup.eventsOf reading source).fault? = none
        ∧ ∀ event ∈ (Markup.eventsOf reading source).items, Document.IsBeside event := by
  rw [call_eq, result_ending_eq_error_iff, Call.items, result_bind_eq_error_iff,
    ← Document.ofEvents_eq_noRoot_iff, Call.root, readRoot, result_mapError, mapError_eq_error_iff]
  constructor
  · rintro (⟨fault, failed, same⟩ | ⟨root, -, refused⟩)
    · cases same
      exact failed
    · obtain ⟨fault, same, -⟩ := Grammar.exists_fault_of_propertySet refused
      cases same
  · intro failed
    exact Or.inl ⟨.noRoot, failed, rfl⟩

/-- **A failure that is raised is logged as an error once, and that is the last record**, unless it
is that there is no root element: that is not logged. In all other runs there is no error in the
log. -/
theorem refusals_are_logged_once (session : Session) (call : Call) :
    (∀ failure, (session.call call).2.result = .error failure → failure.IsRaised →
        failure.cause ≠ .tree .noRoot → EndsInError (session.call call).2.log)
      ∧ (∀ failure, (session.call call).2.result = .error failure →
          ¬ failure.IsRaised ∨ failure.cause = .tree .noRoot → IsQuiet (session.call call).2.log)
      ∧ ((session.call call).2.result = .ok () → IsQuiet (session.call call).2.log)
      ∧ ∀ reading source, call = .document reading source →
          ((session.call call).2.result = .error ⟨[.document], .tree .noRoot⟩
            ↔ (Markup.eventsOf reading source).fault? = none
              ∧ ∀ event ∈ (Markup.eventsOf reading source).items, Document.IsBeside event) := by
  have announces := announces_call session call
  unfold Announces at announces
  refine ⟨?_, ?_, ?_, ?_⟩
  · intro failure failed raised other
    rw [failed] at announces
    exact announces.1 ⟨raised, other⟩
  · intro failure failed exempt
    rw [failed] at announces
    apply announces.2
    rintro ⟨raised, other⟩
    exact exempt.elim (fun notRaised => notRaised raised) other
  · intro ok
    rw [ok] at announces
    exact announces
  · rintro reading source rfl
    exact result_call_eq_noRoot_iff session reading source

/-- A set whose second property has no formula, behind one with a formula that is read. -/
def formulaMissing : Document.Element :=
  .mk .propertySet "" .empty
    [sampleProperty "q1" (.mk .deadlock "" .empty []),
      .mk .property "" .empty [.mk .id "q2" .empty []]]

theorem refusals_are_logged_once_of_formulaMissing :
    ((start .default).call (.tree formulaMissing)).2.result
        = .error ⟨[.property 1], .grammar (.missingFormula "q2")⟩
      ∧ EndsInError ((start .default).call (.tree formulaMissing)).2.log := by
  have refused : ((start .default).call (.tree formulaMissing)).2.result
      = .error ⟨[.property 1], .grammar (.missingFormula "q2")⟩ := by rfl
  exact ⟨refused, (refusals_are_logged_once _ _).1 _ refused trivial nofun⟩

/-- An empty document is refused for a failure that is raised, and no error is logged. -/
theorem missing_root_is_not_logged :
    ∃ failure, ((start .default).call (.document .default (.ok []))).2.result = .error failure
      ∧ failure.IsRaised
      ∧ IsQuiet ((start .default).call (.document .default (.ok []))).2.log := by
  have read : Markup.eventsOf .default (.ok []) = ⟨[], none⟩ := by
    simp [Markup.eventsOf, Markup.events, Markup.pieces, Markup.dropByteOrderMark,
      Markup.piecesFrom, Markup.eventsFrom]
  have failed := (result_call_eq_noRoot_iff (start .default) .default (.ok [])).2
    (by rw [read]; exact ⟨rfl, List.forall_mem_nil _⟩)
  refine ⟨_, failed, trivial, ?_⟩
  have announces := announces_call (start .default) (.document .default (.ok []))
  rw [Announces, failed] at announces
  exact announces.2 fun announced => announced.2 rfl

end Session

end PetriQuery
