import PetriQuery.Proofs.Semantics.System

/-!
# What the meaning of a condition depends on

The value of an expression in a marking depends on the tokens in the places that it mentions, and
whether a formula of computation tree logic holds in a state depends on the tokens that the places
which it mentions have in the states of the system. Of a state formula that is the state itself:
neither its successors count nor the system that it belongs to.

The induction is on the condition. What two markings agree on for a condition they agree on for its
operands, since these mention no other places (`mem_mentions_of_mem_operands`).

Main facts: an assignment of tokens can be exchanged for another one that agrees with it on the
places of a formula (`meaning_depends_on_places`), and the state formulae are the conditions without
temporal operators, properties of whole nets and statistical queries, which hold in states alike
that agree on their places and on whether they are dead (`state_formulae_are_local`).
-/

set_option autoImplicit false

namespace PetriQuery.Query

universe u v

/-! ## Expressions -/

section Expressions

variable {tokens tokens' : String → Int}

mutual

/-- Markings that agree on the places of an expression give it one value. -/
theorem Expr.value_eq_of_agree : ∀ x : Expr, (∀ p ∈ x.mentions, tokens p = tokens' p) →
    x.value tokens = x.value tokens'
  | .literal _, _ => rfl
  | .place name, agree => agree name (List.mem_singleton_self name)
  | .chain op operands, agree => by
    rw [Expr.value, Expr.value, Expr.values_eq_of_agree operands agree]

/-- Markings that agree on the places of operands give them one list of values. -/
theorem Expr.values_eq_of_agree : ∀ xs : List Expr,
    (∀ p ∈ Expr.mentionsList xs, tokens p = tokens' p) →
    Expr.values tokens xs = Expr.values tokens' xs
  | [], _ => rfl
  | x :: xs, agree => by
    obtain ⟨first, others⟩ := List.forall_mem_append.1 agree
    rw [Expr.values, Expr.values, x.value_eq_of_agree first, Expr.values_eq_of_agree xs others]

end

end Expressions

namespace Condition

/-! ## Nodes -/

/-- The conditions right below a condition. -/
def operands : Condition → List Condition
  | .truth _ | .deadlock | .compare _ _ _ | .kSafe _ => []
  | .neg body | .path _ _ body | .control body | .probability _ _ body _ => [body]
  | .conj left right | .disj left right | .holdUntil _ left right => [left, right]

/-- The first condition is the second one or occurs in it, however deep. -/
inductive Occurs (d : Condition) : Condition → Prop
  | self : Occurs d d
  | operand {b c : Condition} : b ∈ c.operands → Occurs d b → Occurs d c

/-- The outermost operator is a temporal one. -/
def isTemporal : Condition → Bool
  | .path _ _ _ | .holdUntil _ _ _ => true
  | _ => false

/-- The condition is a property of a whole net or a statistical query, and so no formula of
computation tree logic. -/
def isSpecial : Condition → Bool
  | .kSafe _ | .control _ | .probability _ _ _ _ => true
  | _ => false

/-- What occurs in a condition is the condition itself or occurs in one of its operands. -/
theorem occurs_iff {d c : Condition} : d.Occurs c ↔ d = c ∨ ∃ b ∈ c.operands, d.Occurs b := by
  constructor
  · intro h
    cases h with
    | self => exact Or.inl rfl
    | operand member below => exact Or.inr ⟨_, member, below⟩
  · rintro (rfl | ⟨b, member, below⟩)
    · exact .self
    · exact .operand member below

/-- Induction on a condition from its operands. -/
@[elab_as_elim]
theorem operandsRec {motive : Condition → Prop}
    (step : ∀ c, (∀ b ∈ c.operands, motive b) → motive c) (c : Condition) : motive c := by
  induction c with
  | truth _ | deadlock | compare _ _ _ | kSafe _ => exact step _ (List.forall_mem_nil _)
  | neg body ih | path _ _ body ih | control body ih | probability _ _ body _ ih =>
    exact step _ (List.forall_mem_singleton.2 ih)
  | conj left right first second | disj left right first second
  | holdUntil _ left right first second =>
    exact step _ (List.forall_mem_cons.2 ⟨first, List.forall_mem_singleton.2 second⟩)

/-- A condition mentions what its operands mention. -/
theorem mem_mentions_of_mem_operands {b c : Condition} {p : String} (member : b ∈ c.operands)
    (mentioned : p ∈ b.mentions) : p ∈ c.mentions := by
  cases c with
  | truth _ | deadlock | compare _ _ _ | kSafe _ => cases member
  | neg body | path _ _ body | control body =>
    obtain rfl := List.mem_singleton.1 member
    exact mentioned
  | probability _ _ body _ =>
    obtain rfl := List.mem_singleton.1 member
    exact List.mem_append_left _ mentioned
  | conj left right | disj left right | holdUntil _ left right =>
    rcases List.mem_cons.1 member with rfl | member
    · exact List.mem_append_left _ mentioned
    · obtain rfl := List.mem_singleton.1 member
      exact List.mem_append_right _ mentioned

/-! ## State formulae -/

/-- A condition is a state formula iff its operands are and its own operator is neither temporal nor
special. -/
theorem isStateFormula_eq (c : Condition) :
    c.isStateFormula = (!c.isTemporal && !c.isSpecial && c.operands.all isStateFormula) := by
  cases c <;> simp [isStateFormula, isTemporal, isSpecial, operands]

/-- A condition is no state formula iff an operator that is temporal or special occurs in it. -/
theorem isStateFormula_eq_false_iff (c : Condition) :
    c.isStateFormula = false
      ↔ ∃ d : Condition, d.Occurs c ∧ (d.isTemporal = true ∨ d.isSpecial = true) := by
  induction c using operandsRec with
  | step c ih =>
    rw [isStateFormula_eq, Bool.and_eq_false_iff, Bool.and_eq_false_iff, Bool.not_eq_false',
      Bool.not_eq_false', List.all_eq_false]
    constructor
    · rintro (own | ⟨b, member, other⟩)
      · exact ⟨c, .self, own⟩
      · obtain ⟨d, below, found⟩ := (ih b member).1 (Bool.eq_false_iff.2 other)
        exact ⟨d, .operand member below, found⟩
    · rintro ⟨d, occurs, found⟩
      rcases occurs_iff.1 occurs with rfl | ⟨b, member, below⟩
      · exact Or.inl found
      · exact Or.inr ⟨b, member, Bool.eq_false_iff.1 ((ih b member).2 ⟨d, below, found⟩)⟩

/-- A state formula holds alike in two states, of whatever systems, that agree on its places and on
whether they are dead. -/
theorem holds_iff_of_isStateFormula {M : System.{u}} {N : System.{v}} {s : M.State} {t : N.State}
    (dead : M.Dead s ↔ N.Dead t) (c : Condition) (state : c.isStateFormula = true)
    (agree : ∀ p ∈ c.mentions, M.tokens s p = N.tokens t p) : c.Holds M s ↔ c.Holds N t := by
  -- The states stay as they are: no operator of a state formula leads to another one.
  induction c with
  | truth _ => rfl
  | deadlock => exact dead
  | neg body ih => exact not_congr (ih state agree)
  | conj left right first second =>
    obtain ⟨stateLeft, stateRight⟩ := Bool.and_eq_true_iff.1 state
    obtain ⟨agreeLeft, agreeRight⟩ := List.forall_mem_append.1 agree
    exact and_congr (first stateLeft agreeLeft) (second stateRight agreeRight)
  | disj left right first second =>
    obtain ⟨stateLeft, stateRight⟩ := Bool.and_eq_true_iff.1 state
    obtain ⟨agreeLeft, agreeRight⟩ := List.forall_mem_append.1 agree
    exact or_congr (first stateLeft agreeLeft) (second stateRight agreeRight)
  | compare relation left right =>
    obtain ⟨agreeLeft, agreeRight⟩ := List.forall_mem_append.1 agree
    rw [Holds, Holds, left.value_eq_of_agree agreeLeft, right.value_eq_of_agree agreeRight]
  | path _ _ _ _ | holdUntil _ _ _ _ _ | kSafe _ | control _ _ | probability _ _ _ _ _ =>
    cases state

end Condition

/-! ## Formulae -/

/-- The system with other numbers of tokens in its states, and with another meaning of the
properties of whole nets and the statistical queries. Its steps and its paths stay. -/
def System.relabel (M : System.{u}) (tokens : M.State → String → Int)
    (special : Condition → M.State → Prop) : System :=
  ⟨M.State, M.step, tokens, M.IsPath, special⟩

namespace Condition

section Relabelled

variable {M : System.{u}} {tokens : M.State → String → Int} {special : Condition → M.State → Prop}

/-- A formula holds in the same states under numbers of tokens that agree, in every state, on its
places. -/
theorem holds_relabel_iff (c : Condition)
    (plain : ∀ d : Condition, d.Occurs c → d.isSpecial = false)
    (agree : ∀ s, ∀ p ∈ c.mentions, M.tokens s p = tokens s p) (s : M.State) :
    c.Holds M s ↔ c.Holds (M.relabel tokens special) s := by
  induction c using operandsRec generalizing s with
  | step c ih =>
    have below : ∀ b ∈ c.operands, ∀ t, b.Holds M t ↔ b.Holds (M.relabel tokens special) t := by
      intro b member
      apply ih b member
      · exact fun d occurs => plain d (.operand member occurs)
      · exact fun t p mentioned => agree t p (mem_mentions_of_mem_operands member mentioned)
    -- A path asks for its operands in many states, so they are taken as properties of states there.
    have same : ∀ b ∈ c.operands, b.Holds M = b.Holds (M.relabel tokens special) :=
      fun b member => funext fun t => propext (below b member t)
    have last : ∀ b b' : Condition, b' ∈ [b, b'] :=
      fun b b' => List.mem_cons_of_mem b List.mem_cons_self
    cases c with
    | truth _ | deadlock => rfl
    | neg body => exact not_congr (below body List.mem_cons_self s)
    | conj left right =>
      exact and_congr (below left List.mem_cons_self s) (below right (last left right) s)
    | disj left right =>
      exact or_congr (below left List.mem_cons_self s) (below right (last left right) s)
    | compare relation left right =>
      obtain ⟨agreeLeft, agreeRight⟩ := List.forall_mem_append.1 (agree s)
      exact iff_of_eq (congrArg₂ relation.Holds (left.value_eq_of_agree agreeLeft)
        (right.value_eq_of_agree agreeRight))
    | path quantifier modality body =>
      have body := same body List.mem_cons_self
      cases modality with
      | next => exact iff_of_eq (congrArg (M.Nearby quantifier s) body)
      | always =>
        exact iff_of_eq (congrArg (fun P => M.Along quantifier s fun π => π.Always P) body)
      | eventually =>
        exact iff_of_eq (congrArg (fun P => M.Along quantifier s fun π => π.Eventually P) body)
    | holdUntil quantifier before goal =>
      exact iff_of_eq (congrArg₂ (fun P Q => M.Along quantifier s fun π => π.Until P Q)
        (same before List.mem_cons_self) (same goal (last before goal)))
    | kSafe _ | control _ | probability _ _ _ _ => cases plain _ .self

end Relabelled

/-! ## Main results -/

/-- **A formula depends on the places that it reports, and on no others.** Exchanging the numbers of
tokens in all states of a system for numbers that agree on the places of a formula changes nothing
about the states in which it holds, whatever the properties of whole nets and the statistical
queries mean before and after. The value of an expression in a marking is the same in each marking
that agrees on the places of the expression. -/
theorem meaning_depends_on_places :
    (∀ c : Condition, (∀ d : Condition, d.Occurs c → d.isSpecial = false) →
      ∀ (M : System.{u}) (tokens : M.State → String → Int) (special : Condition → M.State → Prop),
        (∀ s, ∀ p ∈ c.places, M.tokens s p = tokens s p) →
        ∀ s : M.State, c.Holds M s ↔ c.Holds (M.relabel tokens special) s)
      ∧ ∀ (x : Expr) (tokens tokens' : String → Int),
        (∀ p ∈ x.places, tokens p = tokens' p) → x.value tokens = x.value tokens' := by
  constructor
  · intro c plain M tokens special agree s
    exact holds_relabel_iff c plain (fun t p mentioned => agree t p (mem_places.2 mentioned)) s
  · intro x tokens tokens' agree
    exact x.value_eq_of_agree fun p mentioned => agree p (Expr.mem_places.2 mentioned)

/-- A token is in the place `p`, and some transition is enabled. -/
def goesOn : Condition := .conj (.compare .lessEqual (.literal 1) (.place "p")) (.neg .deadlock)

/-- A token that comes to the place `p` and goes again. -/
def alternating : System where
  State := Bool
  step s t := s ≠ t
  tokens s name := if name = "p" ∧ s then 1 else 0
  IsPath _ _ := True
  Special _ _ := False

/-- The tokens of `alternating` in the place `p`, and five in every other place. -/
def alternatingFull (s : Bool) (name : String) : Int :=
  if name = "p" then alternating.tokens s "p" else 5

theorem meaning_depends_on_places_of_alternating :
    (goesOn.af.Holds alternating false
        ↔ goesOn.af.Holds (alternating.relabel alternatingFull fun _ _ => True) false)
      ∧ goesOn.af.places = ["p"] ∧ alternating.tokens false "q" ≠ alternatingFull false "q"
      ∧ (Expr.chain .product [.place "p", .place "p"]).value (alternating.tokens true)
        = (Expr.chain .product [.place "p", .place "p"]).value (alternatingFull true) := by
  have plain : ∀ d : Condition, d.Occurs goesOn.af → d.isSpecial = false := by
    intro d occurs
    rcases occurs_iff.1 occurs with rfl | ⟨b, member, below⟩
    · rfl
    · obtain rfl := List.mem_singleton.1 member
      by_contra special
      have none := (isStateFormula_eq_false_iff goesOn).2
        ⟨d, below, Or.inr (eq_true_of_ne_false special)⟩
      cases none
  have agree : ∀ s, ∀ p ∈ ["p"], alternating.tokens s p = alternatingFull s p := by
    intro s p member
    obtain rfl := List.mem_singleton.1 member
    rfl
  refine ⟨?_, by decide, by decide, ?_⟩
  · exact meaning_depends_on_places.1 goesOn.af plain alternating alternatingFull _ agree false
  · exact meaning_depends_on_places.{0}.2 _ _ _ (agree true)

/-- **The state formulae are the conditions that a single state decides.** Two states, of whatever
systems, in which the places of a state formula have the same tokens and which are both dead or both
not, satisfy it alike. A condition is no state formula iff a temporal operator, a property of a
whole net or a statistical query occurs in it. -/
theorem state_formulae_are_local (c : Condition) :
    (c.isStateFormula = true →
        ∀ (M : System.{u}) (N : System.{v}) (s : M.State) (t : N.State),
          (∀ p ∈ c.places, M.tokens s p = N.tokens t p) → (M.Dead s ↔ N.Dead t) →
          (c.Holds M s ↔ c.Holds N t))
      ∧ (c.isStateFormula = false
        ↔ ∃ d : Condition, d.Occurs c ∧ (d.isTemporal = true ∨ d.isSpecial = true)) := by
  refine ⟨?_, isStateFormula_eq_false_iff c⟩
  intro state M N s t agree dead
  exact holds_iff_of_isStateFormula dead c state fun p mentioned => agree p (mem_places.2 mentioned)

/-- A token stays in the place `p`, and all other places fill up. -/
def filling : System where
  State := Nat
  step m n := n = m + 1
  tokens n name := if name = "p" then 1 else n
  IsPath _ _ := True
  Special _ _ := True

theorem state_formulae_are_local_of_goesOn :
    (goesOn.Holds alternating true ↔ goesOn.Holds filling (7 : Nat))
      ∧ (Condition.conj goesOn (.neg (.neg goesOn.af))).isStateFormula = false := by
  have moves : ¬ alternating.Dead true := fun dead => dead false Bool.noConfusion
  have grows : ¬ filling.Dead (7 : Nat) := fun dead => dead (8 : Nat) rfl
  constructor
  · apply (state_formulae_are_local goesOn).1 rfl alternating filling true (7 : Nat)
    · intro p member
      have only : goesOn.places = ["p"] := by decide
      rw [only] at member
      obtain rfl := List.mem_singleton.1 member
      rfl
    · exact iff_of_false moves grows
  · apply (state_formulae_are_local.{0, 0} _).2.2
    refine ⟨goesOn.af, ?_, Or.inl rfl⟩
    exact .operand (List.mem_cons_of_mem _ List.mem_cons_self)
      (.operand List.mem_cons_self (.operand List.mem_cons_self .self))

end Condition

end PetriQuery.Query
