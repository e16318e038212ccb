import PetriQuery.Proofs.Grammar.Expression

/-!
# What is read as a formula

An element is read as a condition iff it denotes the condition with no more levels than are left
(`toCondition_eq_ok_iff`). First come the ways of reading that several kinds of formulae share, for
any reader of the subformulae; then, for a reader that accepts what elements denote with the levels
left below, the derivations that they give.
-/

set_option autoImplicit false

namespace PetriQuery.Grammar

open Document (Element Tag)
open Query (Condition Expr PathQuantifier)
open Traced (result_bind_eq_ok_iff result_pure result_mapM_eq_ok_iff result_foldlM_map_eq_ok_iff)

/-- A derivation uses at least one level. -/
theorem Denotes.pos {e : Element} {k : Nat} {c : Condition} (h : Denotes e k c) : 1 ≤ k := by
  cases h <;> exact Nat.succ_pos _

/-- The only child is read and the condition changed. -/
theorem onlyChild_read_eq_ok_iff {read : Reader Condition} {e : Element}
    {build : Condition → Condition} {c : Condition} :
    (onlyChild e >>= fun φ => read φ >>= fun d => pure (build d)).result = .ok c
      ↔ ∃ φ d, e.children = [φ] ∧ (read φ).result = .ok d ∧ build d = c := by
  simp only [result_bind_eq_ok_iff, onlyChild_eq_ok_iff, result_pure, Except.ok.injEq]
  constructor
  · rintro ⟨φ, children, d, read, rfl⟩
    exact ⟨φ, d, children, read, rfl⟩
  · rintro ⟨φ, d, children, read, rfl⟩
    exact ⟨φ, children, d, read, rfl⟩

/-- Two children are read in their order. -/
theorem pair_eq_ok_iff {read : Reader Condition} {e : Element} {c d : Condition} :
    (pair read e).result = .ok (c, d)
      ↔ ∃ φ ψ, e.children = [φ, ψ] ∧ (read φ).result = .ok c ∧ (read ψ).result = .ok d := by
  simp only [pair, result_bind_eq_ok_iff, result_pure, Except.ok.injEq, Prod.mk.injEq]
  constructor
  · rintro ⟨⟨φ, ψ⟩, children, c, left, d, right, rfl, rfl⟩
    exact ⟨φ, ψ, twoChildren_eq_ok_iff.1 children, left, right⟩
  · rintro ⟨φ, ψ, children, left, right⟩
    exact ⟨(φ, ψ), twoChildren_eq_ok_iff.2 children, c, left, d, right, rfl, rfl⟩

/-- Two children are read in their order and the conditions put together. -/
theorem pair_build_eq_ok_iff {read : Reader Condition} {e : Element} {b : Condition}
    (build : Condition → Condition → Condition) :
    (pair read e >>= fun both => pure (build both.1 both.2)).result = .ok b
      ↔ ∃ φ ψ c d, e.children = [φ, ψ] ∧ (read φ).result = .ok c ∧ (read ψ).result = .ok d
        ∧ build c d = b := by
  simp only [result_bind_eq_ok_iff, result_pure, Except.ok.injEq]
  constructor
  · rintro ⟨⟨c, d⟩, h, rfl⟩
    obtain ⟨φ, ψ, children, left, right⟩ := pair_eq_ok_iff.1 h
    exact ⟨φ, ψ, c, d, children, left, right, rfl⟩
  · rintro ⟨φ, ψ, c, d, children, left, right, rfl⟩
    exact ⟨(c, d), pair_eq_ok_iff.2 ⟨φ, ψ, children, left, right⟩, rfl⟩

/-- All children are read in their order, and the conditions put together from the left. -/
theorem combine_eq_ok_iff {read : Reader Condition} {op : Condition → Condition → Condition}
    {e : Element} {b : Condition} :
    (combine read op e).result = .ok b
      ↔ 2 ≤ e.children.length
        ∧ ∃ c cs, (e.children.mapM read).result = .ok (c :: cs) ∧ cs.foldl op c = b := by
  simp only [combine, result_bind_eq_ok_iff, result_foldlM_map_eq_ok_iff]
  constructor
  · rintro ⟨⟨first, rest⟩, h, c, start, cs, others, rfl⟩
    obtain ⟨two, children⟩ := operands_eq_ok_iff.1 h
    refine ⟨two, c, cs, ?_, rfl⟩
    rw [children, List.mapM_cons, result_bind_eq_ok_iff]
    refine ⟨c, start, ?_⟩
    rw [result_bind_eq_ok_iff]
    exact ⟨cs, others, rfl⟩
  · rintro ⟨two, c, cs, h, rfl⟩
    obtain ⟨first, rest, children⟩ : ∃ first rest, e.children = first :: rest := by
      cases children : e.children with
      | nil => simp [children] at two
      | cons first rest => exact ⟨first, rest, rfl⟩
    rw [children, result_mapM_eq_ok_iff] at h
    cases h with
    | cons start others =>
      exact ⟨(first, rest), operands_eq_ok_iff.2 ⟨two, children⟩, c, start, cs,
        result_mapM_eq_ok_iff.2 others, rfl⟩

/-- Two operands are read in their order and compared. -/
theorem comparison_eq_ok_iff {expression : Reader Expr} {e : Element} {c : Condition} :
    (comparison expression e).result = .ok c
      ↔ ∃ a b x y, e.children = [a, b] ∧ (expression a).result = .ok x
        ∧ (expression b).result = .ok y ∧ (compareOperands e x y).result = .ok c := by
  simp only [comparison, result_bind_eq_ok_iff]
  constructor
  · rintro ⟨⟨a, b⟩, children, x, left, y, right, h⟩
    exact ⟨a, b, x, y, twoChildren_eq_ok_iff.1 children, left, right, h⟩
  · rintro ⟨a, b, x, y, children, left, right, h⟩
    exact ⟨(a, b), twoChildren_eq_ok_iff.2 children, x, left, y, right, h⟩

/-- The two operands of `until` are the only children of `before` and `reach`. -/
theorem untilOperands_eq_ok_iff {read : Reader Condition} {e : Element} {c d : Condition} :
    (untilOperands read e).result = .ok (c, d)
      ↔ ∃ before reach φ ψ, e.children = [before, reach] ∧ before.tag = .before ∧ reach.tag = .reach
        ∧ before.children = [φ] ∧ reach.children = [ψ]
        ∧ (read φ).result = .ok c ∧ (read ψ).result = .ok d := by
  simp only [untilOperands, result_bind_eq_ok_iff]
  constructor
  · rintro ⟨⟨before, reach⟩, children, h⟩
    have children := twoChildren_eq_ok_iff.1 children
    split at h
    · next tags =>
      simp only [result_bind_eq_ok_iff, onlyChild_eq_ok_iff, result_pure, Except.ok.injEq,
        Prod.mk.injEq] at h
      obtain ⟨φ, inside, c, hold, ψ, inside', d, goal, rfl, rfl⟩ := h
      exact ⟨before, reach, φ, ψ, children, tags.1, tags.2, inside, inside', hold, goal⟩
    · cases h
  · rintro ⟨before, reach, φ, ψ, children, tag, tag', inside, inside', hold, goal⟩
    refine ⟨(before, reach), twoChildren_eq_ok_iff.2 children, ?_⟩
    rw [if_pos ⟨tag, tag'⟩]
    simp only [result_bind_eq_ok_iff, onlyChild_eq_ok_iff, result_pure, Except.ok.injEq,
      Prod.mk.injEq]
    exact ⟨φ, inside, c, hold, ψ, inside', d, goal, rfl, rfl⟩

/-- A negation above anything but a reachability formula negates what is below it. -/
theorem negation_of_other {read : Reader Condition} {e child : Element}
    (children : e.children = [child]) (other : ¬ IsReachabilityTag child.tag) :
    negation read e = read child >>= fun c => pure (.neg c) := by
  have only : onlyChild e = pure child := by
    rw [onlyChild, children]
  rw [negation, only, pure_bind]
  split
  · next tag => exact absurd (Or.inl tag) other
  · next tag => exact absurd (Or.inr (Or.inl tag)) other
  · next tag => exact absurd (Or.inr (Or.inr tag)) other
  · rfl

/-- A quantifier above `until` gives the two operands. -/
theorem pathFormula_holdUntil {read : Reader Condition} {quantifier : PathQuantifier}
    {e modality : Element} {c d : Condition} (children : e.children = [modality])
    (tag : modality.tag = .holdUntil)
    (operands : (untilOperands read modality).result = .ok (c, d)) :
    (pathFormula read quantifier e).result = .ok (.holdUntil quantifier c d) := by
  rw [pathFormula, result_bind_eq_ok_iff]
  refine ⟨modality, onlyChild_eq_ok_iff.2 children, ?_⟩
  rw [tag, result_bind_eq_ok_iff]
  exact ⟨(c, d), operands, rfl⟩

/-- A leaf has no children. -/
theorem noChildren_pure_eq_ok_iff {e : Element} {c d : Condition} :
    (noChildren e >>= fun _ => pure c).result = .ok d ↔ e.children = [] ∧ c = d := by
  simp only [result_bind_eq_ok_iff, noChildren_eq_ok_iff, result_pure, Except.ok.injEq]
  constructor
  · rintro ⟨-, leaf, same⟩
    exact ⟨leaf, same⟩
  · rintro ⟨leaf, same⟩
    exact ⟨(), leaf, same⟩

section Readers

variable {left : Nat} {read : Reader Condition}
  (accepts : ∀ e c, (read e).result = .ok c ↔ ∃ k ≤ left, Denotes e k c)

include accepts

/-- The only child is read and the condition changed, for a reader that accepts what elements
denote. -/
theorem onlyChild_denotes_iff {e : Element} {build : Condition → Condition} {c : Condition} :
    (onlyChild e >>= fun φ => read φ >>= fun d => pure (build d)).result = .ok c
      ↔ ∃ φ k d, e.children = [φ] ∧ k ≤ left ∧ Denotes φ k d ∧ build d = c := by
  rw [onlyChild_read_eq_ok_iff]
  constructor
  · rintro ⟨φ, d, children, body, rfl⟩
    obtain ⟨k, le, derivation⟩ := (accepts φ d).1 body
    exact ⟨φ, k, d, children, le, derivation, rfl⟩
  · rintro ⟨φ, k, d, children, le, derivation, rfl⟩
    exact ⟨φ, d, children, (accepts φ d).2 ⟨k, le, derivation⟩, rfl⟩

/-- What a negation is read as has a derivation. -/
theorem denotes_of_negation {tag : Tag} {text : String} {attributes} {es : List Element}
    {c : Condition} (h : (negation read (.mk tag text attributes es)).result = .ok c) :
    ∃ k ≤ left + 1, Denotes (.mk .negation text attributes es) k c := by
  have whole := h
  simp only [negation, result_bind_eq_ok_iff, onlyChild_eq_ok_iff] at h
  obtain ⟨child, rfl, h⟩ := h
  -- Right above a reachability formula a negation is written into it; all else is negated whole.
  by_cases reachability : IsReachabilityTag child.tag
  · obtain ⟨tag', text', attributes', es'⟩ := child
    rcases reachability with rfl | rfl | rfl
    · obtain ⟨φ, k, d, rfl, le, body, rfl⟩ := (onlyChild_denotes_iff accepts).1 h
      exact ⟨k + 1, Nat.succ_le_succ le, .notInvariant body⟩
    · obtain ⟨φ, k, d, rfl, le, body, rfl⟩ := (onlyChild_denotes_iff accepts).1 h
      exact ⟨k + 1, Nat.succ_le_succ le, .notImpossibility body⟩
    · obtain ⟨φ, k, d, rfl, le, body, rfl⟩ := (onlyChild_denotes_iff accepts).1 h
      exact ⟨k + 1, Nat.succ_le_succ le, .notPossibility body⟩
  · rw [negation_of_other rfl reachability, result_bind_eq_ok_iff] at whole
    obtain ⟨d, body, same⟩ := whole
    obtain ⟨k, le, body⟩ := (accepts child d).1 body
    obtain rfl : d.neg = c := Except.ok.inj same
    exact ⟨k + 1, Nat.succ_le_succ le, .negation reachability body⟩

/-- What a quantifier over paths is read as has a derivation. -/
theorem denotes_of_pathFormula {quantifier : PathQuantifier} {tag : Tag} {text : String}
    {attributes} {es : List Element} {c : Condition}
    (h : (pathFormula read quantifier (.mk tag text attributes es)).result = .ok c) :
    ∃ k ≤ left + 1, Denotes (.mk (quantifierTag quantifier) text attributes es) k c := by
  simp only [pathFormula, result_bind_eq_ok_iff, onlyChild_eq_ok_iff] at h
  obtain ⟨modality, rfl, h⟩ := h
  obtain ⟨tag', text', attributes', es'⟩ := modality
  -- The modality is no level of its own: its operand has what is left below the quantifier.
  cases tag' with
  | next =>
    obtain ⟨φ, k, d, rfl, le, body, rfl⟩ := (onlyChild_denotes_iff accepts).1 h
    exact ⟨k + 1, Nat.succ_le_succ le, .path quantifier .next body⟩
  | always =>
    obtain ⟨φ, k, d, rfl, le, body, rfl⟩ := (onlyChild_denotes_iff accepts).1 h
    exact ⟨k + 1, Nat.succ_le_succ le, .path quantifier .always body⟩
  | eventually =>
    obtain ⟨φ, k, d, rfl, le, body, rfl⟩ := (onlyChild_denotes_iff accepts).1 h
    exact ⟨k + 1, Nat.succ_le_succ le, .path quantifier .eventually body⟩
  | holdUntil =>
    obtain ⟨⟨d, d'⟩, both, same⟩ := result_bind_eq_ok_iff.1 h
    obtain ⟨⟨_, textB, attributesB, _⟩, ⟨_, textR, attributesR, _⟩, φ, ψ, rfl, rfl, rfl, rfl, rfl,
      hold, goal⟩ := untilOperands_eq_ok_iff.1 both
    obtain ⟨k, kle, hold⟩ := (accepts φ d).1 hold
    obtain ⟨m, mle, goal⟩ := (accepts ψ d').1 goal
    obtain rfl : Condition.holdUntil quantifier d d' = c := Except.ok.inj same
    exact ⟨max k m + 1, Nat.succ_le_succ (Nat.max_le.2 ⟨kle, mle⟩), .holdUntil quantifier hold goal⟩
  | _ => cases h

/-- What two subformulae are read as has derivations. -/
theorem denotes_of_pair {e : Element} {b : Condition} (build : Condition → Condition → Condition)
    (h : (pair read e >>= fun both => pure (build both.1 both.2)).result = .ok b) :
    ∃ φ ψ k m c d, e.children = [φ, ψ] ∧ max k m ≤ left ∧ Denotes φ k c ∧ Denotes ψ m d
      ∧ build c d = b := by
  obtain ⟨φ, ψ, c, d, children, first, second, same⟩ := (pair_build_eq_ok_iff build).1 h
  obtain ⟨k, kle, first⟩ := (accepts φ c).1 first
  obtain ⟨m, mle, second⟩ := (accepts ψ d).1 second
  exact ⟨φ, ψ, k, m, c, d, children, Nat.max_le.2 ⟨kle, mle⟩, first, second, same⟩

/-- What a chain of subformulae is read as has derivations. -/
theorem denotes_of_combine {e : Element} {op : Condition → Condition → Condition} {b : Condition}
    (h : (combine read op e).result = .ok b) :
    2 ≤ e.children.length ∧ ∃ k ≤ left, ∃ c cs, Each Denotes e.children k (c :: cs)
      ∧ cs.foldl op c = b := by
  obtain ⟨two, c, cs, parts, same⟩ := combine_eq_ok_iff.1 h
  obtain ⟨k, le, parts⟩ := (mapM_eq_ok_iff_each accepts).1 parts
  exact ⟨two, k, le, c, cs, parts, same⟩

end Readers

/-- What two operands are compared as has derivations. -/
theorem denotes_of_comparison {limit left : Nat} {e : Element} {c : Condition}
    (h : (comparison (toExpr limit left) e).result = .ok c) :
    ∃ a b k m x y, e.children = [a, b] ∧ max k m ≤ left ∧ DenotesExpr a k x ∧ DenotesExpr b m y
      ∧ (compareOperands e x y).result = .ok c := by
  obtain ⟨a, b, x, y, children, first, second, compared⟩ := comparison_eq_ok_iff.1 h
  obtain ⟨k, kle, first⟩ := toExpr_eq_ok_iff.1 first
  obtain ⟨m, mle, second⟩ := toExpr_eq_ok_iff.1 second
  exact ⟨a, b, k, m, x, y, children, Nat.max_le.2 ⟨kle, mle⟩, first, second, compared⟩

/-- The comparison that an element states of what its operands denote has a derivation. -/
theorem denotes_of_compareOperands {tag : Tag} {text : String} {attributes} {a b : Element}
    {k m : Nat} {x y : Expr} {c : Condition} (first : DenotesExpr a k x)
    (second : DenotesExpr b m y)
    (h : (compareOperands (.mk tag text attributes [a, b]) x y).result = .ok c) :
    Denotes (.mk tag text attributes [a, b]) (max k m + 1) c := by
  cases tag with
  | integerEq =>
    obtain rfl := Except.ok.inj h
    exact .compare .equal first second
  | integerNe =>
    obtain rfl := Except.ok.inj h
    exact .compare .notEqual first second
  | integerLt =>
    obtain rfl := Except.ok.inj h
    exact .compare .less first second
  | integerLe =>
    obtain rfl := Except.ok.inj h
    exact .compare .lessEqual first second
  -- The two comparisons that turn their operands around are written with them in the other order.
  | integerGt =>
    obtain rfl := Except.ok.inj h
    exact .greater first second
  | integerGe =>
    obtain rfl := Except.ok.inj h
    exact .greaterEqual first second
  | _ => cases h

/-- What is read as a condition has a derivation with the levels that were left. -/
theorem denotes_of_toCondition {limit left : Nat} {e : Element} {c : Condition}
    (accepts : ∀ e c, (toCondition limit left e).result = .ok c ↔ ∃ k ≤ left, Denotes e k c)
    (h : (toCondition limit (left + 1) e).result = .ok c) : ∃ k ≤ left + 1, Denotes e k c := by
  obtain ⟨tag, text, attributes, es⟩ := e
  cases tag with
  | invariant =>
    obtain ⟨φ, k, d, rfl, le, body, rfl⟩ := (onlyChild_denotes_iff accepts).1 h
    exact ⟨k + 1, Nat.succ_le_succ le, .invariant body⟩
  | impossibility =>
    obtain ⟨φ, k, d, rfl, le, body, rfl⟩ := (onlyChild_denotes_iff accepts).1 h
    exact ⟨k + 1, Nat.succ_le_succ le, .impossibility body⟩
  | possibility =>
    obtain ⟨φ, k, d, rfl, le, body, rfl⟩ := (onlyChild_denotes_iff accepts).1 h
    exact ⟨k + 1, Nat.succ_le_succ le, .possibility body⟩
  | existsPath => exact denotes_of_pathFormula accepts h
  | allPaths => exact denotes_of_pathFormula accepts h
  | deadlock =>
    obtain ⟨rfl, rfl⟩ := noChildren_pure_eq_ok_iff.1 h
    exact ⟨1, Nat.le_add_left 1 left, .deadlock⟩
  | alwaysTrue =>
    obtain ⟨rfl, rfl⟩ := noChildren_pure_eq_ok_iff.1 h
    exact ⟨1, Nat.le_add_left 1 left, .alwaysTrue⟩
  | alwaysFalse =>
    obtain ⟨rfl, rfl⟩ := noChildren_pure_eq_ok_iff.1 h
    exact ⟨1, Nat.le_add_left 1 left, .alwaysFalse⟩
  | negation => exact denotes_of_negation accepts h
  | conjunction =>
    obtain ⟨two, k, le, d, ds, parts, rfl⟩ := denotes_of_combine accepts h
    exact ⟨k + 1, Nat.succ_le_succ le, .conjunction two parts⟩
  | disjunction =>
    obtain ⟨two, k, le, d, ds, parts, rfl⟩ := denotes_of_combine accepts h
    exact ⟨k + 1, Nat.succ_le_succ le, .disjunction two parts⟩
  | exclusiveDisjunction =>
    obtain ⟨φ, ψ, k, m, d, d', rfl, le, first, second, rfl⟩ := denotes_of_pair accepts exclusive h
    exact ⟨max k m + 1, Nat.succ_le_succ le, .exclusive first second⟩
  | implication =>
    obtain ⟨φ, ψ, k, m, d, d', rfl, le, first, second, rfl⟩ :=
      denotes_of_pair accepts (fun c d => .disj c.neg d) h
    exact ⟨max k m + 1, Nat.succ_le_succ le, .implication first second⟩
  | equivalence =>
    obtain ⟨φ, ψ, k, m, d, d', rfl, le, first, second, rfl⟩ := denotes_of_pair accepts equivalent h
    exact ⟨max k m + 1, Nat.succ_le_succ le, .equivalence first second⟩
  | integerEq | integerNe | integerLt | integerLe | integerGt | integerGe =>
    obtain ⟨a, b, k, m, x, y, rfl, le, first, second, compared⟩ := denotes_of_comparison h
    exact ⟨max k m + 1, Nat.succ_le_succ le, denotes_of_compareOperands first second compared⟩
  | _ => cases h

/-- What has a derivation with the levels that are left is read as the condition. -/
theorem toCondition_of_denotes {limit left k : Nat} {e : Element} {c : Condition}
    (accepts : ∀ e c, (toCondition limit left e).result = .ok c ↔ ∃ k ≤ left, Denotes e k c)
    (le : k ≤ left + 1) (h : Denotes e k c) : (toCondition limit (left + 1) e).result = .ok c := by
  -- By `accepts`, whatever is derived with the levels left below is read there.
  have within {k : Nat} {e : Element} {c : Condition} (le : k ≤ left) (h : Denotes e k c) :
      (toCondition limit left e).result = .ok c := (accepts e c).2 ⟨k, le, h⟩
  have withinExpr {k : Nat} {e : Element} {x : Expr} (le : k ≤ left) (h : DenotesExpr e k x) :
      (toExpr limit left e).result = .ok x := toExpr_eq_ok_iff.2 ⟨k, le, h⟩
  cases h with
  | invariant body | impossibility body | possibility body | notInvariant body
  | notImpossibility body | notPossibility body =>
    exact (onlyChild_denotes_iff accepts).2 ⟨_, _, _, rfl, Nat.le_of_succ_le_succ le, body, rfl⟩
  | negation other body =>
    change (negation _ _).result = _
    -- `other` rules out the three kinds into which the negation would be written.
    rw [negation_of_other rfl other, result_bind_eq_ok_iff]
    exact ⟨_, within (Nat.le_of_succ_le_succ le) body, rfl⟩
  | path quantifier modality body =>
    cases quantifier <;> cases modality <;>
      exact (onlyChild_denotes_iff accepts).2 ⟨_, _, _, rfl, Nat.le_of_succ_le_succ le, body, rfl⟩
  | holdUntil quantifier hold goal =>
    obtain ⟨kle, mle⟩ := Nat.max_le.1 (Nat.le_of_succ_le_succ le)
    have hold := within kle hold
    have goal := within mle goal
    cases quantifier <;>
      exact pathFormula_holdUntil rfl rfl (untilOperands_eq_ok_iff.2
        ⟨_, _, _, _, rfl, rfl, rfl, rfl, rfl, hold, goal⟩)
  | deadlock | alwaysTrue | alwaysFalse => rfl
  | conjunction two parts | disjunction two parts =>
    have parts := (mapM_eq_ok_iff_each accepts).2 ⟨_, Nat.le_of_succ_le_succ le, parts⟩
    exact combine_eq_ok_iff.2 ⟨two, _, _, parts, rfl⟩
  | exclusive first second =>
    obtain ⟨kle, mle⟩ := Nat.max_le.1 (Nat.le_of_succ_le_succ le)
    exact (pair_build_eq_ok_iff exclusive).2
      ⟨_, _, _, _, rfl, within kle first, within mle second, rfl⟩
  | implication first second =>
    obtain ⟨kle, mle⟩ := Nat.max_le.1 (Nat.le_of_succ_le_succ le)
    exact (pair_build_eq_ok_iff fun c d => .disj c.neg d).2
      ⟨_, _, _, _, rfl, within kle first, within mle second, rfl⟩
  | equivalence first second =>
    obtain ⟨kle, mle⟩ := Nat.max_le.1 (Nat.le_of_succ_le_succ le)
    exact (pair_build_eq_ok_iff equivalent).2
      ⟨_, _, _, _, rfl, within kle first, within mle second, rfl⟩
  | compare relation first second =>
    obtain ⟨kle, mle⟩ := Nat.max_le.1 (Nat.le_of_succ_le_succ le)
    cases relation <;>
      exact comparison_eq_ok_iff.2
        ⟨_, _, _, _, rfl, withinExpr kle first, withinExpr mle second, rfl⟩
  | greater first second | greaterEqual first second =>
    obtain ⟨kle, mle⟩ := Nat.max_le.1 (Nat.le_of_succ_le_succ le)
    exact comparison_eq_ok_iff.2
      ⟨_, _, _, _, rfl, withinExpr kle first, withinExpr mle second, rfl⟩

/-- **An element is read as a condition iff it denotes the condition with no more levels than are
left.** -/
theorem toCondition_eq_ok_iff {limit left : Nat} {e : Element} {c : Condition} :
    (toCondition limit left e).result = .ok c ↔ ∃ k ≤ left, Denotes e k c := by
  induction left generalizing e c with
  | zero =>
    constructor
    · intro h
      cases h
    · rintro ⟨k, le, h⟩
      exact absurd (Nat.le_trans h.pos le) (Nat.not_succ_le_zero 0)
  | succ left ih =>
    -- The element and the condition change from level to level, so the hypothesis is about all.
    have accepts := fun e c => @ih e c
    constructor
    · exact denotes_of_toCondition accepts
    · rintro ⟨k, le, h⟩
      exact toCondition_of_denotes accepts le h

end PetriQuery.Grammar
