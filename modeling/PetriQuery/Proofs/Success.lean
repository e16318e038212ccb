import PetriQuery.Trace
import Mathlib.Data.List.Forall2

/-!
# Computations that succeed

When a computation that is put together from others ends with a value, and with which one: one
equivalence for each way of putting computations together. Logs play no part here.
-/

set_option autoImplicit false

namespace PetriQuery

variable {ε ε' α β γ : Type}

/-- A changed value is the change of a value. -/
theorem map_eq_ok_iff {f : α → β} {x : Except ε α} {b : β} :
    x.map f = .ok b ↔ ∃ a, x = .ok a ∧ f a = b := by
  cases x <;> simp [Except.map]

/-- Changing the failure does not change which value there is. -/
theorem mapError_eq_ok_iff {f : ε → ε'} {x : Except ε α} {a : α} :
    x.mapError f = .ok a ↔ x = .ok a := by
  cases x <;> simp [Except.mapError]

/-- A sequence has a value iff its first part has one and its second part goes on from there. -/
theorem bind_eq_ok_iff {x : Except ε α} {f : α → Except ε β} {b : β} :
    (x >>= f) = .ok b ↔ ∃ a, x = .ok a ∧ f a = .ok b := by
  cases x <;> simp [bind, Except.bind]

/-- A list has values iff each of its members has the value at its place. -/
theorem mapM_eq_ok_iff {f : α → Except ε β} {as : List α} {bs : List β} :
    as.mapM f = .ok bs ↔ List.Forall₂ (fun a b => f a = .ok b) as bs := by
  induction as generalizing bs with
  | nil => simp [pure, Except.pure, eq_comm]
  | cons a as ih =>
    rw [List.mapM_cons, bind_eq_ok_iff]
    simp only [bind_eq_ok_iff, ih, List.forall₂_cons_left_iff]
    constructor
    · rintro ⟨b, head, bs', tail, same⟩
      exact ⟨b, bs', head, tail, (Except.ok.inj same).symm⟩
    · rintro ⟨b, bs', head, tail, rfl⟩
      exact ⟨b, head, bs', tail, rfl⟩

namespace Traced

/-- A refusal is a failure. -/
@[simp] theorem result_refuse (message : String) (failure : ε) :
    (refuse message failure : Traced ε α).result = .error failure := rfl

/-- A failure without a record is a failure. -/
@[simp] theorem result_fail (failure : ε) : (fail failure : Traced ε α).result = .error failure :=
  rfl

/-- A sequence ends with a value iff its first part does and its second part goes on from there. -/
theorem result_bind_eq_ok_iff {x : Traced ε α} {f : α → Traced ε β} {b : β} :
    (x >>= f).result = .ok b ↔ ∃ a, x.result = .ok a ∧ (f a).result = .ok b := by
  rw [result_bind]
  cases x.result <;> simp [Except.bind]

/-- A changed value is the change of a value. -/
theorem result_map (f : α → β) (x : Traced ε α) : (f <$> x).result = x.result.map f := by
  rw [map_eq_pure_bind, result_bind]
  cases x.result <;> rfl

/-- A list is read item by item. -/
theorem result_mapM_eq_ok_iff {f : α → Traced ε β} {as : List α} {bs : List β} :
    (as.mapM f).result = .ok bs ↔ List.Forall₂ (fun a b => (f a).result = .ok b) as bs := by
  induction as generalizing bs with
  | nil =>
    rw [List.mapM_nil, result_pure, List.forall₂_nil_left_iff, Except.ok.injEq, eq_comm]
  | cons a as ih =>
    simp only [List.mapM_cons, result_bind_eq_ok_iff, ih, result_pure, Except.ok.injEq,
      List.forall₂_cons_left_iff]
    constructor
    · rintro ⟨b, hb, rest, hrest, rfl⟩
      exact ⟨b, rest, hb, hrest, rfl⟩
    · rintro ⟨b, rest, hb, hrest, rfl⟩
      exact ⟨b, hb, rest, hrest, rfl⟩

/-- Reading each item of a list and combining it at once is reading the list and combining it
then. -/
theorem result_foldlM_map_eq_ok_iff {op : β → α → β} {f : γ → Traced ε α} {start b : β}
    {items : List γ} :
    (items.foldlM (fun sofar item => op sofar <$> f item) start).result = .ok b
      ↔ ∃ as, (items.mapM f).result = .ok as ∧ as.foldl op start = b := by
  induction items generalizing start with
  | nil => simp
  | cons item items ih =>
    simp only [List.foldlM_cons, List.mapM_cons, result_bind_eq_ok_iff, result_map, map_eq_ok_iff,
      ih, result_pure, Except.ok.injEq]
    constructor
    · rintro ⟨-, ⟨a, ha, rfl⟩, as, has, rfl⟩
      exact ⟨a :: as, ⟨a, ha, as, has, rfl⟩, rfl⟩
    · rintro ⟨-, ⟨a, ha, as, has, rfl⟩, rfl⟩
      exact ⟨op start a, ⟨a, ha, rfl⟩, as, has, rfl⟩

end Traced

end PetriQuery
