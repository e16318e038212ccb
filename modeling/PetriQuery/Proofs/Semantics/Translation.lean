import PetriQuery.Proofs.Grammar.Formula
import PetriQuery.Proofs.Grammar.Induction
import PetriQuery.Proofs.Semantics.Element

/-!
# Translation preserves meaning

The condition that an element is translated to holds in the same states as the element, in every
transition system and under every choice of its paths, and the expression that an element is
translated to has the same value as the element in every marking.

The proof is about derivations: a rule whose premises preserve meaning preserves it.
-/

set_option autoImplicit false

namespace PetriQuery.Grammar

open Document (Element)
open Query (Condition Expr Modality Operator PathQuantifier Relation Run System)

universe u

/-! ## Expressions -/

/-- Taking numbers away one after the other takes away their sum. -/
theorem foldl_sub (ns : List Int) (start : Int) : ns.foldl (· - ·) start = start - ns.sum := by
  induction ns generalizing start with
  | nil => simp
  | cons n ns ih =>
    rw [List.foldl_cons, ih, List.sum_cons]
    exact Int.sub_sub start n ns.sum

/-- The expressions that a list of elements denotes have the values of the elements. -/
theorem values_eq {tokens : String → Int} {es : List Element} {xs : List Expr}
    (same : List.Forall₂
      (fun e x => ∃ (m : Nat) (_ : DenotesExpr e m x), x.value tokens = e.value tokens) es xs) :
    Expr.values tokens xs = Element.values tokens es := by
  induction same with
  | nil => rfl
  | cons head tail ih =>
    obtain ⟨_, _, head⟩ := head
    rw [Expr.values, Element.values, head, ih]

/-- A place has as many tokens as its name has in the marking. -/
theorem NamesPlace.value_eq {tokens : String → Int} {e : Element} {name : String}
    (named : NamesPlace e name) : e.value tokens = tokens name := by
  obtain ⟨tag, text, attributes, children⟩ := e
  obtain rfl : tag = .place := named.1
  rw [← named.strip_eq, Element.value, Element.text]

/-- The counts of the places that a list of elements names add up to the tokens in them. -/
theorem sum_values_places {tokens : String → Int} {es : List Element} {names : List String}
    (named : List.Forall₂ NamesPlace es names) :
    (Expr.values tokens (names.map .place)).sum = Element.tokensIn tokens es := by
  induction named with
  | nil => rfl
  | cons head tail ih =>
    rw [List.map_cons, Expr.values, List.sum_cons, ih, Expr.value, ← head.strip_eq]
    rfl

/-- The expression that an element denotes has the value of the element. -/
theorem DenotesExpr.value_eq (tokens : String → Int) {k : Nat} {e : Element} {x : Expr}
    (h : DenotesExpr e k x) : x.value tokens = e.value tokens := by
  induction h using DenotesExpr.rec' with
  | constant writes =>
    obtain ⟨-, same⟩ := Numeral.writesInteger_iff.1 writes
    rw [Expr.value, Element.value, same]
  | place named => rw [Expr.value, named.value_eq]
  | onePlace named =>
    rw [Expr.value, Element.value, Element.tokensIn, List.map_singleton, List.sum_singleton,
      named.strip_eq]
  | places _ named =>
    rw [Expr.value, Operator.combine, Element.value, sum_values_places named]
  | sum _ _ ih => rw [Expr.value, Operator.combine, Element.value, values_eq ih]
  | product _ _ ih => rw [Expr.value, Operator.combine, Element.value, values_eq ih]
  | opposite _ ih =>
    simp [Expr.value, Expr.values, Operator.combine, Element.value, ih]
  | difference two _ ih =>
    have same := values_eq ih
    -- With a second operand the first one is not negated: the sum of the others is taken from it.
    cases ih with
    | nil => simp at two
    | cons _ others =>
      cases others with
      | nil => simp at two
      | cons _ _ =>
        rw [Expr.values, Element.values] at same
        obtain ⟨head, tail⟩ := List.cons.inj same
        rw [Expr.value, Expr.values, Operator.combine, foldl_sub, Element.value, head, tail]
        simp

/-! ## Formulae -/

section Formulae

variable {M : System.{u}}

/-- Properties that the same states have are the same. -/
theorem property_ext {P Q : M.State → Prop} (same : ∀ s, P s ↔ Q s) : P = Q :=
  funext fun s => propext (same s)

/-- Conditions combined by conjunction hold iff each of them does. -/
theorem holds_foldl_conj {cs : List Condition} {c : Condition} {s : M.State} :
    (cs.foldl .conj c).Holds M s ↔ ∀ d ∈ c :: cs, d.Holds M s := by
  induction cs generalizing c with
  | nil => simp
  | cons d cs ih =>
    rw [List.foldl_cons, ih]
    simp [Condition.Holds, and_assoc]

/-- Conditions combined by disjunction hold iff one of them does. -/
theorem holds_foldl_disj {cs : List Condition} {c : Condition} {s : M.State} :
    (cs.foldl .disj c).Holds M s ↔ ∃ d ∈ c :: cs, d.Holds M s := by
  induction cs generalizing c with
  | nil => simp
  | cons d cs ih =>
    rw [List.foldl_cons, ih]
    simp [Condition.Holds, or_assoc]

/-- Lists of conditions and of elements that hold in the same states hold together as wholes. -/
theorem forall_holds_iff {φs : List Element} {cs : List Condition} {s : M.State}
    (same : List.Forall₂
      (fun φ c => ∃ (m : Nat) (_ : Denotes φ m c), ∀ s, c.Holds M s ↔ φ.Holds M s) φs cs) :
    (∀ c ∈ cs, c.Holds M s) ↔ ∀ φ ∈ φs, φ.Holds M s := by
  induction same with
  | nil => simp
  | cons head tail ih =>
    obtain ⟨_, _, head⟩ := head
    simp [head s, ih]

/-- Of lists of conditions and of elements that hold in the same states, some member holds in the
same states. -/
theorem exists_holds_iff {φs : List Element} {cs : List Condition} {s : M.State}
    (same : List.Forall₂
      (fun φ c => ∃ (m : Nat) (_ : Denotes φ m c), ∀ s, c.Holds M s ↔ φ.Holds M s) φs cs) :
    (∃ c ∈ cs, c.Holds M s) ↔ ∃ φ ∈ φs, φ.Holds M s := by
  induction same with
  | nil => simp
  | cons head tail ih =>
    obtain ⟨_, _, head⟩ := head
    simp [head s, ih]

/-- The path formulae of elements are those of conditions. -/
theorem holds_path {text text' attributes attributes' φ} {c : Condition}
    (quantifier : PathQuantifier) (modality : Modality)
    (each : ∀ s, c.Holds M s ↔ φ.Holds M s) (s : M.State) :
    (Condition.path quantifier modality c).Holds M s
      ↔ (Element.mk (quantifierTag quantifier) text attributes
          [.mk (modalityTag modality) text' attributes' [φ]]).Holds M s := by
  have same := property_ext each
  cases modality with
  | next =>
    cases quantifier with
    | somePath =>
      rw [Condition.Holds, System.nearby_somePath_iff, same]
      simp only [quantifierTag, modalityTag, Element.Holds]
    | everyPath =>
      rw [Condition.Holds, System.nearby_everyPath_iff, same]
      simp only [quantifierTag, modalityTag, Element.Holds]
  | always =>
    rw [Condition.Holds, same]
    cases quantifier <;> simp only [quantifierTag, modalityTag, Element.Holds, System.Along]
  | eventually =>
    rw [Condition.Holds, same]
    cases quantifier <;> simp only [quantifierTag, modalityTag, Element.Holds, System.Along]

/-- The condition written for an invariant holds where along every path the operand always does. -/
theorem holds_neg_eventually_neg {c : Condition} {s : M.State} :
    (Condition.neg (.path .somePath .eventually c.neg)).Holds M s
      ↔ ∀ π, M.IsPath s π → π.Always (c.Holds M) := by
  constructor
  · intro never π path
    by_contra fails
    exact never ⟨π, path, (π.eventually_not_iff _).2 fails⟩
  · rintro always ⟨π, path, fails⟩
    exact (π.eventually_not_iff _).1 fails (always π path)

/-- The condition written for an impossibility holds where along every path the operand never
does. -/
theorem holds_neg_eventually {c : Condition} {s : M.State} :
    (Condition.neg (.path .somePath .eventually c)).Holds M s
      ↔ ∀ π, M.IsPath s π → π.Always fun t => ¬ c.Holds M t := by
  constructor
  · intro never π path t visited holds
    exact never ⟨π, path, t, visited, holds⟩
  · rintro never ⟨π, path, t, visited, holds⟩
    exact never π path t visited holds

/-- The condition written for an exclusive disjunction holds where exactly one operand does. -/
theorem holds_exclusive {c d : Condition} {s : M.State} :
    (exclusive c d).Holds M s ↔ Xor (c.Holds M s) (d.Holds M s) := by
  rw [exclusive, Xor]
  simp only [Condition.Holds]
  tauto

/-- The condition written for an equivalence holds where both operands do or neither does. -/
theorem holds_equivalent {c d : Condition} {s : M.State} :
    (equivalent c d).Holds M s ↔ (c.Holds M s ↔ d.Holds M s) := by
  rw [equivalent]
  simp only [Condition.Holds]
  tauto

/-- The condition that an element denotes holds in the states in which the element does. -/
theorem Denotes.holds_iff (M : System.{u}) {k : Nat} {e : Element} {c : Condition}
    (h : Denotes e k c) : ∀ s, c.Holds M s ↔ e.Holds M s := by
  induction h using Denotes.rec' with
  | invariant _ ih =>
    intro s
    have same := property_ext ih
    rw [holds_neg_eventually_neg, same, Element.Holds]
  | impossibility _ ih =>
    intro s
    have same := property_ext ih
    rw [holds_neg_eventually, same, Element.Holds]
  | possibility _ ih =>
    intro s
    have same := property_ext ih
    rw [Element.Holds, ← same]
    exact Iff.rfl
  -- A negation right above one of these three takes the `¬` off the condition written for it, or
  -- puts one on. The element itself is still the negation of the one below it.
  | notInvariant _ ih =>
    intro s
    have same := property_ext ih
    rw [Element.Holds, Element.Holds, ← same, ← holds_neg_eventually_neg, Condition.Holds, not_not]
  | notImpossibility _ ih =>
    intro s
    have same := property_ext ih
    rw [Element.Holds, Element.Holds, ← same, ← holds_neg_eventually, Condition.Holds, not_not]
  | notPossibility _ ih =>
    intro s
    have same := property_ext ih
    rw [Condition.Holds, Element.Holds, Element.Holds, ← same]
    exact Iff.rfl
  | negation _ _ ih =>
    intro s
    rw [Condition.Holds, Element.Holds, ih s]
  | path quantifier modality _ ih =>
    intro s
    exact holds_path quantifier modality ih s
  | holdUntil quantifier _ _ before goal =>
    intro s
    rw [Condition.Holds, property_ext before, property_ext goal]
    cases quantifier <;> simp only [quantifierTag, Element.Holds, System.Along]
  | deadlock =>
    intro s
    rw [Condition.Holds, Element.Holds]
  | alwaysTrue | alwaysFalse =>
    intro s
    simp [Condition.Holds, Element.Holds]
  | conjunction _ _ ih =>
    intro s
    rw [holds_foldl_conj, forall_holds_iff ih, Element.Holds, Element.holdAll_iff]
  | disjunction _ _ ih =>
    intro s
    rw [holds_foldl_disj, exists_holds_iff ih, Element.Holds, Element.holdSome_iff]
  | exclusive _ _ left right =>
    intro s
    rw [Element.Holds, ← left s, ← right s]
    exact holds_exclusive
  | implication _ _ left right =>
    intro s
    rw [Element.Holds, ← left s, ← right s, Condition.Holds, Condition.Holds]
    exact imp_iff_not_or.symm
  | equivalence _ _ left right =>
    intro s
    rw [Element.Holds, ← left s, ← right s]
    exact holds_equivalent
  | compare relation first second =>
    intro s
    rw [Condition.Holds, first.value_eq, second.value_eq]
    cases relation <;> rw [Relation.Holds, relationTag, Element.Holds]
  | greater first second =>
    intro s
    rw [Condition.Holds, first.value_eq, second.value_eq, Relation.Holds, Element.Holds]
  | greaterEqual first second =>
    intro s
    rw [Condition.Holds, first.value_eq, second.value_eq, Relation.Holds, Element.Holds]

end Formulae

/-! ## Translation -/

/-- What an element is translated to has the meaning of the element, whatever the limits: a
condition holds in the same states of every system, an expression has the same value in every
marking. -/
theorem translation_preserves_meaning (limit left : Nat) (e : Element) :
    (∀ c, (toCondition limit left e).result = .ok c →
      ∀ (M : System.{u}) (s : M.State), c.Holds M s ↔ e.Holds M s)
    ∧ ∀ x, (toExpr limit left e).result = .ok x →
      ∀ tokens, x.value tokens = e.value tokens := by
  constructor
  · intro c accepted M s
    obtain ⟨k, -, denotes⟩ := toCondition_eq_ok_iff.1 accepted
    exact denotes.holds_iff M s
  · intro x accepted tokens
    obtain ⟨k, -, denotes⟩ := toExpr_eq_ok_iff.1 accepted
    exact denotes.value_eq tokens

/-- The tokens of the place `p`, negated. -/
def opposite : Element := .mk .integerDifference "" .empty [.mk .place " p " .empty []]

/-- It is not invariant that exactly one of these holds: no transition is enabled, the tokens of `p`
negated are more than minus one. -/
def notAlwaysOne : Element :=
  .mk .negation "" .empty
    [.mk .invariant "" .empty
      [.mk .exclusiveDisjunction "" .empty
        [.mk .deadlock "" .empty [],
          .mk .integerGt "" .empty [opposite, .mk .integerConstant "-1" .empty []]]]]

/-- A token that comes and goes. -/
def blinking : System where
  State := Bool
  step s t := s ≠ t
  tokens s _ := if s then 1 else 0
  IsPath _ _ := True
  Special _ _ := False

theorem translation_preserves_meaning_of_negated_invariant :
    (toCondition 5 5 notAlwaysOne).result
        = .ok (Condition.ef (.neg (exclusive .deadlock
            (.compare .less (.literal (-1)) (.chain .difference [.literal 0, .place "p"])))))
      ∧ ((Condition.ef (.neg (exclusive .deadlock
            (.compare .less (.literal (-1)) (.chain .difference [.literal 0, .place "p"]))))).Holds
            blinking true
          ↔ notAlwaysOne.Holds blinking true)
      ∧ (toExpr 2 2 opposite).result = .ok (.chain .difference [.literal 0, .place "p"])
      ∧ (Expr.chain .difference [.literal 0, .place "p"]).value (blinking.tokens true)
          = opposite.value (blinking.tokens true) := by
  have accepted : (toCondition 5 5 notAlwaysOne).result
      = .ok (Condition.ef (.neg (exclusive .deadlock
          (.compare .less (.literal (-1)) (.chain .difference [.literal 0, .place "p"]))))) := by
    decide
  have accepted' : (toExpr 2 2 opposite).result
      = .ok (.chain .difference [.literal 0, .place "p"]) := by
    decide
  refine ⟨accepted, ?_, accepted', ?_⟩
  · exact (translation_preserves_meaning 5 5 notAlwaysOne).1 _ accepted blinking true
  · exact (translation_preserves_meaning.{0} 2 2 opposite).2 _ accepted' _

end PetriQuery.Grammar
