import PetriQuery.Proofs.Session

/-!
# Failures that are announced

A computation announces some of its failures: it writes a record of the level `error`, and that
record is the last one. In all other runs no such record is written (`Announces`). Which failures
are announced is carried from the parts of a computation to the whole, whatever way the parts are
put together.
-/

set_option autoImplicit false

namespace PetriQuery

/-- No record is of the level `error`. -/
def IsQuiet (log : List Record) : Prop := ∀ record ∈ log, record.level ≠ .error

/-- The last record is of the level `error`, and no other one is. -/
def EndsInError (log : List Record) : Prop :=
  ∃ before last, log = before ++ [last] ∧ IsQuiet before ∧ last.level = .error

theorem isQuiet_nil : IsQuiet [] := List.forall_mem_nil _

theorem IsQuiet.append {log log' : List Record} (h : IsQuiet log) (h' : IsQuiet log') :
    IsQuiet (log ++ log') :=
  List.forall_mem_append.2 ⟨h, h'⟩

/-- Records that are no errors may be in front of a log that ends in one. -/
theorem IsQuiet.append_endsInError {log log' : List Record} (h : IsQuiet log)
    (h' : EndsInError log') : EndsInError (log ++ log') := by
  obtain ⟨before, last, rfl, quiet, error⟩ := h'
  exact ⟨log ++ before, last, (List.append_assoc _ _ _).symm, h.append quiet, error⟩

namespace Traced

variable {ε ε' α β σ : Type} {announced : ε → Prop}

/-- What the log has to be for an end: quiet behind a value, and behind a failure that is not
announced; behind one that is, it ends in an error. -/
def LogFits (announced : ε → Prop) (log : List Record) : Except ε α → Prop
  | .ok _ => IsQuiet log
  | .error failure => (announced failure → EndsInError log) ∧ (¬ announced failure → IsQuiet log)

/-- The log of the computation fits its end. -/
def Announces (announced : ε → Prop) (x : Traced ε α) : Prop := LogFits announced x.log x.result

/-- A quiet log in front changes nothing. -/
theorem LogFits.append {log log' : List Record} {result : Except ε α} (quiet : IsQuiet log)
    (h : LogFits announced log' result) : LogFits announced (log ++ log') result := by
  cases result with
  | ok a => exact quiet.append h
  | error failure =>
    exact ⟨fun yes => quiet.append_endsInError (h.1 yes), fun no => quiet.append (h.2 no)⟩

theorem announces_pure (a : α) : Announces announced (pure a : Traced ε α) := isQuiet_nil

theorem announces_note {level : Level} (other : level ≠ .error) (message : String) :
    Announces announced (note level message : Traced ε Unit) :=
  List.forall_mem_singleton.2 other

theorem announces_refuse {failure : ε} (h : announced failure) (message : String) :
    Announces announced (refuse message failure : Traced ε α) :=
  ⟨fun _ => ⟨[], _, rfl, isQuiet_nil, rfl⟩, fun no => absurd h no⟩

theorem announces_fail {failure : ε} (h : ¬ announced failure) :
    Announces announced (fail failure : Traced ε α) :=
  ⟨fun yes => absurd yes h, fun _ => isQuiet_nil⟩

namespace Announces

/-- What follows is run only behind a value, and so behind a quiet log. -/
theorem bind {x : Traced ε α} {f : α → Traced ε β} (first : Announces announced x)
    (next : ∀ a, x.result = .ok a → Announces announced (f a)) : Announces announced (x >>= f) := by
  unfold Announces at first
  cases h : x.result with
  | error failure =>
    rw [h] at first
    rw [bind_of_error f h]
    exact first
  | ok a =>
    rw [h] at first
    rw [Announces, log_bind_of_ok f h, result_bind_of_ok f h]
    exact (next a h).append first

theorem map {x : Traced ε α} (h : Announces announced x) (f : α → β) :
    Announces announced (f <$> x) := by
  rw [map_eq_pure_bind]
  exact h.bind fun a _ => announces_pure (f a)

theorem ending {x : Traced ε α} (h : Announces announced x) : Announces announced x.ending :=
  h.bind fun _ _ => announces_pure ()

/-- A changed failure is announced if the failure was. -/
theorem mapError {x : Traced ε α} (h : Announces announced x) {announced' : ε' → Prop}
    {f : ε → ε'} (same : ∀ failure, announced' (f failure) ↔ announced failure) :
    Announces announced' (x.mapError f) := by
  unfold Announces at h ⊢
  rw [log_mapError, result_mapError]
  cases ends : x.result with
  | ok a =>
    rw [ends] at h
    exact h
  | error failure =>
    rw [ends] at h
    constructor
    · intro yes
      exact h.1 ((same failure).1 yes)
    · intro no
      exact h.2 fun yes => no ((same failure).2 yes)

theorem mapM {f : α → Traced ε β} (each : ∀ a, Announces announced (f a)) (items : List α) :
    Announces announced (items.mapM f) := by
  induction items with
  | nil => exact announces_pure []
  | cons item items ih =>
    rw [List.mapM_cons]
    exact (each item).bind fun b _ => ih.bind fun bs _ => announces_pure (b :: bs)

theorem foldlM {step : σ → α → Traced ε σ} (each : ∀ state a, Announces announced (step state a))
    (items : List α) (state : σ) : Announces announced (items.foldlM step state) := by
  induction items generalizing state with
  | nil => exact announces_pure state
  | cons item items ih =>
    rw [List.foldlM_cons]
    exact (each state item).bind fun next _ => ih next

end Announces

end Traced

end PetriQuery
