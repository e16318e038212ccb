import PetriQuery.Proofs.Grammar.Derivation

/-!
# Children and lists of elements

When the children of an element are there in the number in which they are wanted, and when a list of
elements is read. A list is read iff each of its elements denotes something with the levels that are
left (`mapM_eq_ok_iff_each`).
-/

set_option autoImplicit false

namespace PetriQuery.Grammar

open Document (Element)
open Traced (result_mapM_eq_ok_iff)

/-! ## Children -/

@[simp] theorem result_refuseArity {α : Type} (expected : Arity) (e : Element) :
    (refuseArity expected e : Traced Fault α).result
      = .error (.wrongArity e.name expected e.children.length) := rfl

@[simp] theorem result_unexpected {α : Type} (e : Element) (context : Construct) :
    (unexpected e context : Traced Fault α).result = .error (.unexpectedTag e.name context) := rfl

theorem onlyChild_eq_ok_iff {e child : Element} :
    (onlyChild e).result = .ok child ↔ e.children = [child] := by
  rw [onlyChild]
  split
  · next h => simp [h]
  · next h =>
    simp only [result_refuseArity, reduceCtorEq, false_iff]
    exact h child

theorem twoChildren_eq_ok_iff {e first second : Element} :
    (twoChildren e).result = .ok (first, second) ↔ e.children = [first, second] := by
  rw [twoChildren]
  split
  · next h => simp [h]
  · next h =>
    simp only [result_refuseArity, reduceCtorEq, false_iff]
    exact h first second

theorem noChildren_eq_ok_iff {e : Element} {u : Unit} :
    (noChildren e).result = .ok u ↔ e.children = [] := by
  rw [noChildren]
  split
  · next h => simp [h]
  · next h => simpa using h

theorem someChildren_eq_ok_iff {count : Nat} {e : Element} {es : List Element} :
    (someChildren count e).result = .ok es ↔ count ≤ e.children.length ∧ e.children = es := by
  rw [someChildren]
  split
  · next h => simp [h]
  · next h => simp [h]

theorem operands_eq_ok_iff {e first : Element} {rest : List Element} :
    (operands e).result = .ok (first, rest)
      ↔ 2 ≤ e.children.length ∧ e.children = first :: rest := by
  rw [operands]
  split
  · next h => simp [h]
  · next h =>
    simp only [result_refuseArity, reduceCtorEq, false_iff]
    rintro ⟨two, children⟩
    cases rest with
    | nil => simp [children] at two
    | cons second rest => exact h first second rest children

/-! ## Lists of elements -/

section Lists

variable {α : Type} {Means : Element → Nat → α → Prop}

/-- The members of a list use no more than a number of levels iff each of them does. -/
theorem exists_each_iff {left : Nat} {es : List Element} {as : List α} :
    (∃ k ≤ left, Each Means es k as)
      ↔ List.Forall₂ (fun e a => ∃ k ≤ left, Means e k a) es as := by
  constructor
  · rintro ⟨k, le, h⟩
    induction h with
    | nil => exact .nil
    | cons head tail ih =>
      exact .cons ⟨_, Nat.le_trans (Nat.le_max_left _ _) le, head⟩
        (ih (Nat.le_trans (Nat.le_max_right _ _) le))
  · intro h
    induction h with
    | nil => exact ⟨0, Nat.zero_le _, .nil⟩
    | cons head tail ih =>
      obtain ⟨k, kle, head⟩ := head
      obtain ⟨m, mle, tail⟩ := ih
      exact ⟨max k m, Nat.max_le.2 ⟨kle, mle⟩, .cons head tail⟩

/-- What holds of everything denoted with fewer levels than some number holds of the members of a
list that use fewer. -/
theorem Each.forall₂_of_lt {P : Element → α → Prop} {k n : Nat} {es : List Element} {as : List α}
    (below : ∀ m < n, ∀ {e a}, Means e m a → P e a) (lt : k < n) (h : Each Means es k as) :
    List.Forall₂ P es as := by
  refine (exists_each_iff.1 ⟨k, Nat.le_refl k, h⟩).imp ?_
  rintro e a ⟨m, le, means⟩
  exact below m (Nat.lt_of_le_of_lt le lt) means

/-- What is known of everything that is related to something is known of each member of a list whose
members are related to those of another one. -/
theorem forall_of_forall₂ {γ : Type} {P : α → Prop} {R : γ → α → Prop} {cs : List γ} {as : List α}
    (known : ∀ c a, R c a → P a) (related : List.Forall₂ R cs as) : ∀ a ∈ as, P a := by
  induction related with
  | nil => exact fun _ member => absurd member List.not_mem_nil
  | cons head tail ih => exact List.forall_mem_cons.2 ⟨known _ _ head, ih⟩

/-- A reader that accepts what elements denote accepts what lists of elements denote. -/
theorem mapM_eq_ok_iff_each {left : Nat} {read : Reader α}
    (accepts : ∀ e a, (read e).result = .ok a ↔ ∃ k ≤ left, Means e k a)
    {es : List Element} {as : List α} :
    (es.mapM read).result = .ok as ↔ ∃ k ≤ left, Each Means es k as := by
  rw [result_mapM_eq_ok_iff, exists_each_iff]
  simp only [accepts]

/-- There is a member for each element. -/
theorem Each.length_eq {es : List Element} {k : Nat} {as : List α} (h : Each Means es k as) :
    es.length = as.length := by
  induction h with
  | nil => rfl
  | cons _ _ ih => rw [List.length_cons, List.length_cons, ih]

end Lists

end PetriQuery.Grammar
