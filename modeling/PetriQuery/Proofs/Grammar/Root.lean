import PetriQuery.Proofs.Grammar.Formula

/-!
# What is read as the content of a `formula` element

The two readers of `formula` elements accept exactly what the grammar derives
(`formulaReaders_eq_ok_iff`): a formula, `k-safe` or `control` for a query without settings, and one
`finally` or `globally` for a statistical query.
-/

set_option autoImplicit false

namespace PetriQuery.Grammar

open Document (Element Tag)
open Query (Condition RunGoal Sampling)
open Traced (result_bind_eq_ok_iff result_pure)

/-- A property of a whole net is no formula. -/
theorem Denotes.tag_ne {e : Element} {k : Nat} {c : Condition} (h : Denotes e k c) :
    e.tag ≠ .kSafe ∧ e.tag ≠ .control := by
  cases h with
  | path quantifier modality _ => cases quantifier <;> exact ⟨nofun, nofun⟩
  | holdUntil quantifier _ _ => cases quantifier <;> exact ⟨nofun, nofun⟩
  | compare relation _ _ => cases relation <;> exact ⟨nofun, nofun⟩
  | _ => exact ⟨nofun, nofun⟩

/-- The content of a `formula` element is read iff it denotes the condition with no more levels than
there are. -/
theorem formula_eq_ok_iff {limit : Nat} {e : Element} {c : Condition} :
    (formula limit e).result = .ok c ↔ ∃ k ≤ limit, DenotesFormula e k c := by
  obtain ⟨tag, text, attributes, es⟩ := e
  constructor
  · intro h
    rw [formula, result_bind_eq_ok_iff] at h
    obtain ⟨child, children, h⟩ := h
    obtain rfl : es = [child] := onlyChild_eq_ok_iff.1 children
    obtain ⟨tag', text', attributes', es'⟩ := child
    -- A property of a whole net is gone into without using a level; a formula is read as it stands.
    split at h
    · next kSafe =>
      obtain rfl : tag' = .kSafe := kSafe
      simp only [result_bind_eq_ok_iff, onlyChild_eq_ok_iff, toExpr_eq_ok_iff, result_pure,
        Except.ok.injEq] at h
      obtain ⟨bound, rfl, x, ⟨k, le, derivation⟩, rfl⟩ := h
      exact ⟨k, le, .kSafe derivation⟩
    · next control =>
      obtain rfl : tag' = .control := control
      simp only [result_bind_eq_ok_iff, onlyChild_eq_ok_iff, toCondition_eq_ok_iff, result_pure,
        Except.ok.injEq] at h
      obtain ⟨φ, rfl, d, ⟨k, le, derivation⟩, rfl⟩ := h
      exact ⟨k, le, .control derivation⟩
    · obtain ⟨k, le, derivation⟩ := toCondition_eq_ok_iff.1 h
      exact ⟨k, le, .plain derivation⟩
  · rintro ⟨k, le, h⟩
    rw [formula, result_bind_eq_ok_iff]
    cases h with
    | kSafe derivation =>
      refine ⟨_, onlyChild_eq_ok_iff.2 rfl, ?_⟩
      simp only [Element.tag, result_bind_eq_ok_iff, onlyChild_eq_ok_iff]
      exact ⟨_, rfl, _, toExpr_eq_ok_iff.2 ⟨k, le, derivation⟩, rfl⟩
    | control derivation =>
      refine ⟨_, onlyChild_eq_ok_iff.2 rfl, ?_⟩
      simp only [Element.tag, result_bind_eq_ok_iff, onlyChild_eq_ok_iff]
      exact ⟨_, rfl, _, toCondition_eq_ok_iff.2 ⟨k, le, derivation⟩, rfl⟩
    | plain derivation =>
      -- What has a derivation as a formula cannot be taken for a property of a whole net.
      obtain ⟨notKSafe, notControl⟩ := derivation.tag_ne
      refine ⟨_, onlyChild_eq_ok_iff.2 rfl, ?_⟩
      split
      · next kSafe => exact absurd kSafe notKSafe
      · next control => exact absurd control notControl
      · exact toCondition_eq_ok_iff.2 ⟨k, le, derivation⟩

/-- The content of a `formula` element is read as a statistical query iff it denotes that query with
no more levels than there are. -/
theorem statisticalFormula_eq_ok_iff {limit : Nat} {settings : Sampling} {e : Element}
    {c : Condition} :
    (statisticalFormula limit settings e).result = .ok c
      ↔ ∃ k ≤ limit, DenotesStatistical settings e k c := by
  obtain ⟨tag, text, attributes, es⟩ := e
  constructor
  · intro h
    rw [statisticalFormula, result_bind_eq_ok_iff] at h
    obtain ⟨child, children, h⟩ := h
    obtain rfl : es = [child] := onlyChild_eq_ok_iff.1 children
    obtain ⟨tag', text', attributes', es'⟩ := child
    split at h
    · next goal =>
      obtain rfl : tag' = .eventually := goal
      simp only [result_bind_eq_ok_iff, onlyChild_eq_ok_iff, toCondition_eq_ok_iff, result_pure,
        Except.ok.injEq] at h
      obtain ⟨φ, rfl, d, ⟨k, le, derivation⟩, rfl⟩ := h
      exact ⟨k, le, .mk .eventually derivation⟩
    · next goal =>
      obtain rfl : tag' = .always := goal
      simp only [result_bind_eq_ok_iff, onlyChild_eq_ok_iff, toCondition_eq_ok_iff, result_pure,
        Except.ok.injEq] at h
      obtain ⟨φ, rfl, d, ⟨k, le, derivation⟩, rfl⟩ := h
      exact ⟨k, le, .mk .always derivation⟩
    · cases h
  · rintro ⟨k, le, ⟨goal, derivation⟩⟩
    rw [statisticalFormula, result_bind_eq_ok_iff]
    refine ⟨_, onlyChild_eq_ok_iff.2 rfl, ?_⟩
    cases goal <;>
      simp only [Element.tag, goalTag, result_bind_eq_ok_iff, onlyChild_eq_ok_iff] <;>
      exact ⟨_, rfl, _, toCondition_eq_ok_iff.2 ⟨k, le, derivation⟩, rfl⟩

/-- **The readers of `formula` elements accept exactly what the grammar derives**, with the
condition that it derives, as long as the derivation uses no more levels than the limit. -/
theorem formulaReaders_eq_ok_iff (limit : Nat) (e : Element) (c : Condition) :
    ((formula limit e).result = .ok c ↔ ∃ k ≤ limit, DenotesFormula e k c)
      ∧ ∀ settings : Sampling, (statisticalFormula limit settings e).result = .ok c
        ↔ ∃ k ≤ limit, DenotesStatistical settings e k c :=
  ⟨formula_eq_ok_iff, fun _ => statisticalFormula_eq_ok_iff⟩

end PetriQuery.Grammar
