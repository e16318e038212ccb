import PetriQuery.Proofs.Grammar.Children

/-!
# Induction on derivations

A derivation has lists of derivations inside it, so the recursors that come with the two relations
speak of derivations and of lists at once. The principles here have a case for each rule, and in the
cases of the rules with lists a hypothesis about each member. Both follow from the induction on the
number of levels, which is smaller in every premise of a rule.
-/

set_option autoImplicit false

namespace PetriQuery.Grammar

open Document (Element)
open Query (Condition Expr)

/-- Induction on the derivation of an expression. -/
@[elab_as_elim]
theorem DenotesExpr.rec'
    {motive : (e : Element) → (k : Nat) → (x : Expr) → DenotesExpr e k x → Prop}
    (constant : ∀ {text attributes children value} writes,
      motive _ _ _ (@DenotesExpr.constant text attributes children value writes))
    (place : ∀ {e name} named, motive _ _ _ (@DenotesExpr.place e name named))
    (onePlace : ∀ {text attributes e name} named,
      motive _ _ _ (@DenotesExpr.onePlace text attributes e name named))
    (places : ∀ {text attributes es names} two named,
      motive _ _ _ (@DenotesExpr.places text attributes es names two named))
    (sum : ∀ {text attributes es k xs} two each,
      List.Forall₂ (fun e x => ∃ m h, motive e m x h) es xs →
      motive _ _ _ (@DenotesExpr.sum text attributes es k xs two each))
    (product : ∀ {text attributes es k xs} two each,
      List.Forall₂ (fun e x => ∃ m h, motive e m x h) es xs →
      motive _ _ _ (@DenotesExpr.product text attributes es k xs two each))
    (opposite : ∀ {text attributes e k x} h, motive e k x h →
      motive _ _ _ (@DenotesExpr.opposite text attributes e k x h))
    (difference : ∀ {text attributes es k xs} two each,
      List.Forall₂ (fun e x => ∃ m h, motive e m x h) es xs →
      motive _ _ _ (@DenotesExpr.difference text attributes es k xs two each))
    {e : Element} {k : Nat} {x : Expr} (h : DenotesExpr e k x) : motive e k x h := by
  induction k using Nat.strongRecOn generalizing e x with
  | ind k ih =>
    -- The members of a list of operands use fewer levels than the element above them.
    have members : ∀ {m : Nat} {es : List Element} {xs : List Expr}, k = m + 1 →
        Each DenotesExpr es m xs → List.Forall₂ (fun e x => ∃ m h, motive e m x h) es xs := by
      intro m es xs above each
      exact each.forall₂_of_lt (fun l lt _ _ h => ⟨l, h, ih l lt h⟩)
        (above ▸ Nat.lt_succ_self m)
    cases h with
    | constant writes => exact constant writes
    | place named => exact place named
    | onePlace named => exact onePlace named
    | places two named => exact places two named
    | sum two each => exact sum two each (members rfl each)
    | product two each => exact product two each (members rfl each)
    | opposite h => exact opposite h (ih _ (Nat.lt_succ_self _) h)
    | difference two each => exact difference two each (members rfl each)

/-- Induction on the derivation of a condition. -/
@[elab_as_elim]
theorem Denotes.rec'
    {motive : (e : Element) → (k : Nat) → (c : Condition) → Denotes e k c → Prop}
    (invariant : ∀ {text attributes φ k c} h, motive φ k c h →
      motive _ _ _ (@Denotes.invariant text attributes φ k c h))
    (impossibility : ∀ {text attributes φ k c} h, motive φ k c h →
      motive _ _ _ (@Denotes.impossibility text attributes φ k c h))
    (possibility : ∀ {text attributes φ k c} h, motive φ k c h →
      motive _ _ _ (@Denotes.possibility text attributes φ k c h))
    (notInvariant : ∀ {text attributes text' attributes' φ k c} h, motive φ k c h →
      motive _ _ _ (@Denotes.notInvariant text attributes text' attributes' φ k c h))
    (notImpossibility : ∀ {text attributes text' attributes' φ k c} h, motive φ k c h →
      motive _ _ _ (@Denotes.notImpossibility text attributes text' attributes' φ k c h))
    (notPossibility : ∀ {text attributes text' attributes' φ k c} h, motive φ k c h →
      motive _ _ _ (@Denotes.notPossibility text attributes text' attributes' φ k c h))
    (negation : ∀ {text attributes φ k c} other h, motive φ k c h →
      motive _ _ _ (@Denotes.negation text attributes φ k c other h))
    (path : ∀ {text attributes text' attributes' φ k c} quantifier modality h, motive φ k c h →
      motive _ _ _
        (@Denotes.path text attributes text' attributes' φ k c quantifier modality h))
    (holdUntil : ∀ {text attributes text' attributes' textB attributesB textR attributesR}
      {φ k c ψ m d} quantifier h h', motive φ k c h → motive ψ m d h' →
      motive _ _ _
        (@Denotes.holdUntil text attributes text' attributes' textB attributesB textR attributesR
          φ k c ψ m d quantifier h h'))
    (deadlock : ∀ {text attributes}, motive _ _ _ (@Denotes.deadlock text attributes))
    (alwaysTrue : ∀ {text attributes}, motive _ _ _ (@Denotes.alwaysTrue text attributes))
    (alwaysFalse : ∀ {text attributes}, motive _ _ _ (@Denotes.alwaysFalse text attributes))
    (conjunction : ∀ {text attributes φs k c cs} two each,
      List.Forall₂ (fun φ d => ∃ m h, motive φ m d h) φs (c :: cs) →
      motive _ _ _ (@Denotes.conjunction text attributes φs k c cs two each))
    (disjunction : ∀ {text attributes φs k c cs} two each,
      List.Forall₂ (fun φ d => ∃ m h, motive φ m d h) φs (c :: cs) →
      motive _ _ _ (@Denotes.disjunction text attributes φs k c cs two each))
    (exclusive : ∀ {text attributes φ k c ψ m d} h h', motive φ k c h → motive ψ m d h' →
      motive _ _ _ (@Denotes.exclusive text attributes φ k c ψ m d h h'))
    (implication : ∀ {text attributes φ k c ψ m d} h h', motive φ k c h → motive ψ m d h' →
      motive _ _ _ (@Denotes.implication text attributes φ k c ψ m d h h'))
    (equivalence : ∀ {text attributes φ k c ψ m d} h h', motive φ k c h → motive ψ m d h' →
      motive _ _ _ (@Denotes.equivalence text attributes φ k c ψ m d h h'))
    (compare : ∀ {text attributes a k x b m y} relation first second,
      motive _ _ _ (@Denotes.compare text attributes a k x b m y relation first second))
    (greater : ∀ {text attributes a k x b m y} first second,
      motive _ _ _ (@Denotes.greater text attributes a k x b m y first second))
    (greaterEqual : ∀ {text attributes a k x b m y} first second,
      motive _ _ _ (@Denotes.greaterEqual text attributes a k x b m y first second))
    {e : Element} {k : Nat} {c : Condition} (h : Denotes e k c) : motive e k c h := by
  induction k using Nat.strongRecOn generalizing e c with
  | ind k ih =>
    have only : ∀ {m : Nat} {φ : Element} {c : Condition}, k = m + 1 →
        ∀ h : Denotes φ m c, motive φ m c h := by
      intro m φ c above h
      exact ih m (above ▸ Nat.lt_succ_self m) h
    -- Of two operands, neither uses more levels than the maximum that the element counts.
    have both : ∀ {m n : Nat} {φ ψ : Element} {c d : Condition}, k = max m n + 1 →
        ∀ (h : Denotes φ m c) (h' : Denotes ψ n d), motive φ m c h ∧ motive ψ n d h' := by
      intro m n φ ψ c d above h h'
      have left : m < k := above ▸ Nat.lt_succ_of_le (Nat.le_max_left m n)
      have right : n < k := above ▸ Nat.lt_succ_of_le (Nat.le_max_right m n)
      exact ⟨ih m left h, ih n right h'⟩
    have members : ∀ {m : Nat} {φs : List Element} {cs : List Condition}, k = m + 1 →
        Each Denotes φs m cs → List.Forall₂ (fun φ d => ∃ m h, motive φ m d h) φs cs := by
      intro m φs cs above each
      exact each.forall₂_of_lt (fun l lt _ _ h => ⟨l, h, ih l lt h⟩)
        (above ▸ Nat.lt_succ_self m)
    cases h with
    | invariant h => exact invariant h (only rfl h)
    | impossibility h => exact impossibility h (only rfl h)
    | possibility h => exact possibility h (only rfl h)
    | notInvariant h => exact notInvariant h (only rfl h)
    | notImpossibility h => exact notImpossibility h (only rfl h)
    | notPossibility h => exact notPossibility h (only rfl h)
    | negation other h => exact negation other h (only rfl h)
    | path quantifier modality h => exact path quantifier modality h (only rfl h)
    | holdUntil quantifier h h' =>
      obtain ⟨before, goal⟩ := both rfl h h'
      exact holdUntil quantifier h h' before goal
    | deadlock => exact deadlock
    | alwaysTrue => exact alwaysTrue
    | alwaysFalse => exact alwaysFalse
    | conjunction two each => exact conjunction two each (members rfl each)
    | disjunction two each => exact disjunction two each (members rfl each)
    | exclusive h h' =>
      obtain ⟨left, right⟩ := both rfl h h'
      exact exclusive h h' left right
    | implication h h' =>
      obtain ⟨left, right⟩ := both rfl h h'
      exact implication h h' left right
    | equivalence h h' =>
      obtain ⟨left, right⟩ := both rfl h h'
      exact equivalence h h' left right
    | compare relation first second => exact compare relation first second
    | greater first second => exact greater first second
    | greaterEqual first second => exact greaterEqual first second

end PetriQuery.Grammar
