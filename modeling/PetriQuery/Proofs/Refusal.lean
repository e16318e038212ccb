import PetriQuery.Proofs.Success

/-!
# Computations that fail

When a computation that is put together from others fails, and with which failure: the counterpart
of the equivalences for computations that succeed. What comes after a failure is never looked at, so
each of them says which part fails and that the parts before it succeed.
-/

set_option autoImplicit false

namespace PetriQuery

variable {ε ε' α β γ : Type}

/-- Results are equal if one has whatever value and whatever failure the other one has. -/
theorem result_eq_of_imp {x y : Except ε α} (value : ∀ a, x = .ok a → y = .ok a)
    (failure : ∀ e, x = .error e → y = .error e) : x = y := by
  cases x with
  | ok a => exact (value a rfl).symm
  | error e => exact (failure e rfl).symm

/-- A changed failure is the change of a failure. -/
theorem mapError_eq_error_iff {f : ε → ε'} {x : Except ε α} {failure : ε'} :
    x.mapError f = .error failure ↔ ∃ cause, x = .error cause ∧ f cause = failure := by
  cases x <;> simp [Except.mapError]

/-- Changing the value does not change which failure there is. -/
theorem map_eq_error_iff {f : α → β} {x : Except ε α} {failure : ε} :
    x.map f = .error failure ↔ x = .error failure := by
  cases x <;> simp [Except.map]

namespace Traced

/-- A sequence fails iff its first part does, or its second part does behind a first one that
succeeds. -/
theorem result_bind_eq_error_iff {x : Traced ε α} {f : α → Traced ε β} {failure : ε} :
    (x >>= f).result = .error failure
      ↔ x.result = .error failure ∨ ∃ a, x.result = .ok a ∧ (f a).result = .error failure := by
  rw [result_bind]
  cases x.result <;> simp [Except.bind]

/-- A changed value does not change which failure there is. -/
theorem result_bind_pure_eq_error_iff {x : Traced ε α} {f : α → β} {failure : ε} :
    (x >>= fun a => pure (f a)).result = .error failure ↔ x.result = .error failure := by
  simp only [result_bind_eq_error_iff, result_pure, reduceCtorEq, and_false, exists_false, or_false]

/-- A list is not read iff one of its items is not, and all items before it are. The failure is the
one of that item. -/
theorem result_mapM_eq_error_iff {f : α → Traced ε β} {as : List α} {failure : ε} :
    (as.mapM f).result = .error failure
      ↔ ∃ (index : Nat) (a : α), as[index]? = some a ∧ (f a).result = .error failure
        ∧ ∀ earlier < index, ∀ a', as[earlier]? = some a' → ∃ b, (f a').result = .ok b := by
  induction as with
  | nil =>
    rw [List.mapM_nil, result_pure]
    constructor
    · intro h
      cases h
    · rintro ⟨index, a, member, -⟩
      cases member
  | cons head tail ih =>
    simp only [List.mapM_cons, result_bind_eq_error_iff, result_pure, reduceCtorEq, and_false,
      exists_false, or_false, ih]
    constructor
    · rintro (failed | ⟨b, first, index, a, member, failed, before⟩)
      · exact ⟨0, head, rfl, failed, fun earlier less => absurd less (Nat.not_lt_zero earlier)⟩
      · refine ⟨index + 1, a, member, failed, ?_⟩
        intro earlier less a' member'
        cases earlier with
        | zero =>
          obtain rfl : head = a' := Option.some.inj member'
          exact ⟨b, first⟩
        | succ earlier => exact before earlier (Nat.lt_of_succ_lt_succ less) a' member'
    · rintro ⟨index, a, member, failed, before⟩
      cases index with
      | zero =>
        obtain rfl : head = a := Option.some.inj member
        exact Or.inl failed
      | succ index =>
        -- The head is before the item that fails, so it is read.
        obtain ⟨b, first⟩ := before 0 (Nat.succ_pos index) head rfl
        refine Or.inr ⟨b, first, index, a, member, failed, ?_⟩
        intro earlier less a' member'
        exact before (earlier + 1) (Nat.succ_lt_succ less) a' member'

/-- An item of a list that is not read is not read either. -/
theorem exists_error_of_mapM {f : α → Traced ε β} {as : List α} {failure : ε}
    (failed : (as.mapM f).result = .error failure) : ∃ a ∈ as, (f a).result = .error failure := by
  obtain ⟨index, a, member, failed, -⟩ := result_mapM_eq_error_iff.1 failed
  exact ⟨a, List.mem_of_getElem? member, failed⟩

/-- Reading each item of a list and combining it at once fails on an item of the list. -/
theorem exists_error_of_foldlM_map {op : β → α → β} {f : γ → Traced ε α} {start : β}
    {items : List γ} {failure : ε}
    (failed : (items.foldlM (fun sofar item => op sofar <$> f item) start).result
      = .error failure) : ∃ item ∈ items, (f item).result = .error failure := by
  induction items generalizing start with
  | nil => cases failed
  | cons item items ih =>
    simp only [List.foldlM_cons, result_bind_eq_error_iff, result_map, map_eq_error_iff] at failed
    rcases failed with here | ⟨sofar, -, later⟩
    · exact ⟨item, List.mem_cons_self, here⟩
    · obtain ⟨other, member, there⟩ := ih later
      exact ⟨other, List.mem_cons_of_mem item member, there⟩

end Traced

end PetriQuery
