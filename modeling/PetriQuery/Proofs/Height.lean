import PetriQuery.Proofs.Grammar.Evidence
import PetriQuery.Proofs.Grammar.Parts
import PetriQuery.Proofs.Grammar.Root
import PetriQuery.Proofs.Grammar.Watches
import PetriQuery.Proofs.Session

/-!
# How high queries are

The height of a query is the length of the longest chain of conditions and expressions in it. The
limit on nesting counts levels of elements. A level adds at most three to the height, but for a
conjunction or a disjunction: its operands are combined from the left, so each operand after the
first one adds one.

Main facts: the height of a query is bounded by the limit together with the largest number of
operands of a conjunction or a disjunction (`height_of_held_queries`). From a limit of two on, the
limit alone does not bound it (`exists_bound_of_maxDepth_iff`).
-/

set_option autoImplicit false

namespace PetriQuery

open Document (Element Tag)

namespace Query

/-! ## Height -/

mutual

/-- The length of the longest chain of expressions in an expression. -/
def Expr.height : Expr → Nat
  | .literal _ | .place _ => 1
  | .chain _ operands => Expr.heightList operands + 1

/-- The length of the longest chain of expressions in the expressions of a list. -/
def Expr.heightList : List Expr → Nat
  | [] => 0
  | operand :: rest => max operand.height (Expr.heightList rest)

end

/-- The length of the longest chain of conditions and expressions in a condition. -/
def Condition.height : Condition → Nat
  | .truth _ | .deadlock => 1
  | .neg body | .path _ _ body | .control body => body.height + 1
  | .conj left right | .disj left right | .holdUntil _ left right =>
    max left.height right.height + 1
  | .compare _ left right => max left.height right.height + 1
  | .kSafe bound => bound.height + 1
  | .probability _ _ body observables =>
    max body.height (Expr.heightList (observables.map Prod.snd)) + 1

theorem Expr.heightList_le_iff {xs : List Expr} {n : Nat} :
    Expr.heightList xs ≤ n ↔ ∀ x ∈ xs, x.height ≤ n := by
  induction xs with
  | nil => simp [Expr.heightList]
  | cons x xs ih => rw [Expr.heightList, Nat.max_le, ih, List.forall_mem_cons]

/-- The operator puts one level on top of its operands. -/
def Stacks (op : Condition → Condition → Condition) : Prop :=
  ∀ c d, (op c d).height = max c.height d.height + 1

theorem stacks_conj : Stacks .conj := fun _ _ => rfl

theorem stacks_disj : Stacks .disj := fun _ _ => rfl

/-- Operands combined from the left are no higher than the highest of them and their number. -/
theorem Stacks.height_foldl_le {op : Condition → Condition → Condition} (stacking : Stacks op)
    {n : Nat} {c : Condition} {cs : List Condition} (first : c.height ≤ n)
    (others : ∀ d ∈ cs, d.height ≤ n) : (cs.foldl op c).height ≤ n + cs.length := by
  induction cs generalizing n c with
  | nil => exact first
  | cons d cs ih =>
    obtain ⟨second, rest⟩ := List.forall_mem_cons.1 others
    have top : (op c d).height ≤ n + 1 := by
      rw [stacking c d]
      exact Nat.succ_le_succ (Nat.max_le.2 ⟨first, second⟩)
    have grown := ih top fun e member => Nat.le_succ_of_le (rest e member)
    rw [List.foldl_cons, List.length_cons]
    omega

/-- Operands combined from the left are as high as there are operands. -/
theorem Stacks.length_lt_height_foldl {op : Condition → Condition → Condition}
    (stacking : Stacks op) (c : Condition) (cs : List Condition) :
    c.height + cs.length ≤ (cs.foldl op c).height := by
  induction cs generalizing c with
  | nil => exact Nat.le_refl c.height
  | cons d cs ih =>
    have grown := ih (op c d)
    have top : c.height < (op c d).height := by
      rw [stacking c d]
      exact Nat.lt_succ_of_le (Nat.le_max_left _ _)
    rw [List.foldl_cons, List.length_cons]
    omega

end Query

namespace Grammar

open Query (Condition Expr Stacks stacks_conj stacks_disj)
open Traced (result_bind_eq_ok_iff result_mapM_eq_ok_iff)

/-! ## Width -/

/-- No conjunction and no disjunction in the element has more operands than the width. -/
def IsNarrow (width : Nat) (e : Element) : Prop :=
  ∀ x, Inside x e → x.tag = .conjunction ∨ x.tag = .disjunction → x.children.length ≤ width

/-- What is in a narrow element is narrow. -/
theorem IsNarrow.inside {width : Nat} {x e : Element} (narrow : IsNarrow width e)
    (inside : Inside x e) : IsNarrow width x :=
  fun y within => narrow y (within.trans inside)

/-- A child of a narrow element is narrow. -/
theorem IsNarrow.child {width : Nat} {x e : Element} (narrow : IsNarrow width e)
    (member : x ∈ e.children) : IsNarrow width x :=
  narrow.inside (inside_of_mem member)

/-- An element is narrow iff its children are and it has not too many operands itself. -/
theorem isNarrow_iff {width : Nat} {e : Element} :
    IsNarrow width e
      ↔ (e.tag = .conjunction ∨ e.tag = .disjunction → e.children.length ≤ width)
        ∧ ∀ child ∈ e.children, IsNarrow width child := by
  constructor
  · intro narrow
    exact ⟨narrow e .self, fun child member => narrow.child member⟩
  · rintro ⟨own, children⟩ x inside
    cases inside with
    | self => exact own
    | child member inside => exact children _ member x inside

/-- What is in an element is no larger than it. -/
theorem Inside.sizeOf_le {x e : Element} (h : Inside x e) : sizeOf x ≤ sizeOf e := by
  induction h with
  | self => exact Nat.le_refl _
  | @child c e member _ ih =>
    obtain ⟨tag, text, attributes, children⟩ := e
    have smaller : sizeOf c < sizeOf children := List.sizeOf_lt_of_mem member
    simp only [Element.mk.sizeOf_spec]
    omega

/-- Every element has a width. -/
theorem exists_isNarrow (e : Element) : ∃ width, IsNarrow width e := by
  refine ⟨sizeOf e, ?_⟩
  intro x inside _
  have length_le : ∀ es : List Element, es.length ≤ sizeOf es := by
    intro es
    induction es with
    | nil => simp
    | cons e es ih =>
      simp only [List.length_cons, List.cons.sizeOf_spec]
      omega
  apply Nat.le_trans _ inside.sizeOf_le
  obtain ⟨tag, text, attributes, children⟩ := x
  have count := length_le children
  simp only [Element.children, Element.mk.sizeOf_spec]
  omega

/-- What holds of everything denoted by a narrow element with fewer levels than some number holds of
the members of a list that use fewer. -/
theorem Each.forall_of_isNarrow {α : Type} {Means : Element → Nat → α → Prop} {P : α → Prop}
    {width k : Nat} {es : List Element} {as : List α}
    (below : ∀ m ≤ k, ∀ {e a}, IsNarrow width e → Means e m a → P a)
    (narrow : ∀ e ∈ es, IsNarrow width e) (h : Each Means es k as) : ∀ a ∈ as, P a := by
  induction h with
  | nil => exact List.forall_mem_nil _
  | cons head tail ih =>
    obtain ⟨first, rest⟩ := List.forall_mem_cons.1 narrow
    refine List.forall_mem_cons.2 ⟨below _ (Nat.le_max_left _ _) first head, ?_⟩
    apply ih _ rest
    intro m le e a
    exact below m (Nat.le_trans le (Nat.le_max_right _ _))

/-! ## Expressions -/

/-- Operands that use no more than some levels each make a chain that is one higher. -/
theorem height_chain_le {op : Query.Operator} {es : List Element} {n : Nat} {xs : List Expr}
    (each : List.Forall₂ (fun _ x => x.height ≤ n) es xs) : (Expr.chain op xs).height ≤ n + 1 := by
  rw [Expr.height]
  apply Nat.succ_le_succ
  exact Expr.heightList_le_iff.2 (forall_of_forall₂ (fun _ _ le => le) each)

/-- An expression is at most one higher than the levels that its element uses: the places of a
`tokens-count` use none. -/
theorem DenotesExpr.height_le {e : Element} {k : Nat} {x : Expr} (h : DenotesExpr e k x) :
    x.height ≤ k + 1 := by
  induction k using Nat.strongRecOn generalizing e x with
  | ind k ih =>
    -- The operands of a chain use fewer levels than the chain.
    have members : ∀ {m : Nat} {es : List Element} {xs : List Expr}, k = m + 1 →
        Each DenotesExpr es m xs → List.Forall₂ (fun _ x => x.height ≤ m + 1) es xs := by
      rintro m es xs rfl each
      refine each.forall₂_of_lt ?_ (Nat.lt_succ_self m)
      intro l lt e x denotes
      have bound := ih l lt denotes
      omega
    cases h with
    | constant _ => rw [Expr.height]; omega
    | place _ => rw [Expr.height]; omega
    | onePlace _ => rw [Expr.height]; omega
    | places _ _ =>
      rw [Expr.height]
      apply Nat.succ_le_succ
      rw [Expr.heightList_le_iff]
      intro x member
      obtain ⟨name, -, rfl⟩ := List.mem_map.1 member
      rw [Expr.height]
    | sum _ each => exact height_chain_le (members rfl each)
    | product _ each => exact height_chain_le (members rfl each)
    | @opposite _ _ _ m x denotes =>
      have bound := ih m (Nat.lt_succ_self m) denotes
      simp only [Expr.height, Expr.heightList]
      omega
    | difference _ each => exact height_chain_le (members rfl each)

/-! ## Formulae -/

/-- How much a level adds to the height of a condition at most. -/
def levelHeight (width : Nat) : Nat := max 3 (width - 1)

theorem three_le_levelHeight (width : Nat) : 3 ≤ levelHeight width := Nat.le_max_left _ _

/-- A combination of the operands of a narrow element adds no more than a level may. -/
theorem height_combination_le {op : Condition → Condition → Condition} (stacking : Stacks op)
    {width n : Nat} {c : Condition} {cs : List Condition} (le : cs.length + 1 ≤ width)
    (all : ∀ d ∈ c :: cs, d.height ≤ n) : (cs.foldl op c).height ≤ n + levelHeight width := by
  obtain ⟨first, others⟩ := List.forall_mem_cons.1 all
  have grown := stacking.height_foldl_le first others
  have wide : width - 1 ≤ levelHeight width := Nat.le_max_right _ _
  omega

/-- What the height of a formula is at most that uses a number of levels: one for the innermost
level, and for each level around it what a level adds. -/
def heightBound (width levels : Nat) : Nat := (levels - 1) * levelHeight width + 1

theorem heightBound_succ (width : Nat) {levels : Nat} (pos : 1 ≤ levels) :
    heightBound width (levels + 1) = heightBound width levels + levelHeight width := by
  obtain ⟨below, rfl⟩ : ∃ below, levels = below + 1 := Nat.exists_eq_add_one.2 pos
  rw [heightBound, heightBound, Nat.add_sub_cancel, Nat.add_sub_cancel, Nat.add_one_mul]
  exact Nat.add_right_comm _ _ 1

theorem heightBound_mono (width : Nat) {levels more : Nat} (le : levels ≤ more) :
    heightBound width levels ≤ heightBound width more :=
  Nat.succ_le_succ (Nat.mul_le_mul_right _ (Nat.sub_le_sub_right le 1))

/-- The levels of an expression stay within the height that as many levels of a formula allow. -/
theorem le_heightBound (width levels : Nat) : levels ≤ heightBound width levels := by
  have product : (levels - 1) * 1 ≤ (levels - 1) * levelHeight width :=
    Nat.mul_le_mul_left _ (Nat.le_trans (by decide) (three_le_levelHeight width))
  rw [heightBound]
  omega

/-- A comparison adds no more than a level may. -/
theorem height_comparison_le {relation : Query.Relation} {a b : Element} {k m : Nat} {x y : Expr}
    (width : Nat) (left : DenotesExpr a k x) (right : DenotesExpr b m y) :
    (Condition.compare relation x y).height ≤ heightBound width (max k m + 1) := by
  have boundLeft := left.height_le
  have boundRight := right.height_le
  have pos : 1 ≤ max k m := Nat.le_trans left.pos (Nat.le_max_left k m)
  have room := le_heightBound width (max k m)
  have three := three_le_levelHeight width
  rw [Condition.height, heightBound_succ width pos]
  omega

/-- Equal elements denote equal members, however many they are. -/
theorem each_replicate {α : Type} {Means : Element → Nat → α → Prop} {e : Element} {k : Nat} {a : α}
    (means : Means e k a) (count : Nat) :
    Each Means (List.replicate (count + 1) e) k (List.replicate (count + 1) a) := by
  induction count with
  | zero =>
    have one := Each.cons means Each.nil
    rwa [Nat.max_zero] at one
  | succ count ih =>
    have more := Each.cons means ih
    rwa [Nat.max_self] at more

/-- Operands of which there is one use a level. -/
theorem Each.one_le {es : List Element} {k : Nat} {c : Condition} {cs : List Condition}
    (h : Each Denotes es k (c :: cs)) : 1 ≤ k := by
  cases h with
  | cons head _ => exact Nat.le_trans head.pos (Nat.le_max_left _ _)

/-- What an element denotes is no higher than the levels allow that the element uses. -/
theorem Denotes.height_le {width : Nat} {e : Element} {k : Nat} {c : Condition}
    (h : Denotes e k c) (narrow : IsNarrow width e) : c.height ≤ heightBound width k := by
  induction k using Nat.strongRecOn generalizing e c with
  | ind k ih =>
    have three := three_le_levelHeight width
    -- Below an operand there is room for all that a level may add.
    have only : ∀ {m : Nat} {φ : Element} {c : Condition}, k = m + 1 → Denotes φ m c →
        Inside φ e → c.height + levelHeight width ≤ heightBound width k := by
      rintro m φ c rfl denotes inside
      rw [heightBound_succ width denotes.pos]
      exact Nat.add_le_add_right (ih m (Nat.lt_succ_self m) denotes (narrow.inside inside)) _
    have both : ∀ {m n : Nat} {φ ψ : Element} {c d : Condition}, k = max m n + 1 →
        Denotes φ m c → Denotes ψ n d → Inside φ e → Inside ψ e →
        max c.height d.height + levelHeight width ≤ heightBound width k := by
      rintro m n φ ψ c d rfl denotes denotes' inside inside'
      have left := ih m (Nat.lt_succ_of_le (Nat.le_max_left m n)) denotes (narrow.inside inside)
      have right := ih n (Nat.lt_succ_of_le (Nat.le_max_right m n)) denotes'
        (narrow.inside inside')
      rw [heightBound_succ width (Nat.le_trans denotes.pos (Nat.le_max_left m n))]
      apply Nat.add_le_add_right
      apply Nat.max_le.2
      constructor
      · exact Nat.le_trans left (heightBound_mono width (Nat.le_max_left m n))
      · exact Nat.le_trans right (heightBound_mono width (Nat.le_max_right m n))
    have combined : ∀ {op : Condition → Condition → Condition} {m : Nat} {c : Condition}
        {cs : List Condition}, Stacks op → k = m + 1 → Each Denotes e.children m (c :: cs) →
        e.children.length ≤ width → (cs.foldl op c).height ≤ heightBound width k := by
      rintro op m c cs stacking rfl each few
      have all : ∀ d ∈ c :: cs, d.height ≤ heightBound width m := by
        refine each.forall_of_isNarrow ?_ fun φ member => narrow.child member
        intro l le φ d narrow' denotes
        exact Nat.le_trans (ih l (Nat.lt_succ_of_le le) denotes narrow')
          (heightBound_mono width le)
      rw [each.length_eq, List.length_cons] at few
      rw [heightBound_succ width each.one_le]
      exact height_combination_le stacking few all
    cases h with
    | invariant denotes | impossibility denotes | possibility denotes =>
      have bound := only rfl denotes (inside_of_mem List.mem_cons_self)
      simp only [Condition.height]
      omega
    | notInvariant denotes | notImpossibility denotes | notPossibility denotes =>
      have bound := only rfl denotes
        ((inside_of_mem List.mem_cons_self).trans (inside_of_mem List.mem_cons_self))
      simp only [Condition.height]
      omega
    | negation _ denotes =>
      have bound := only rfl denotes (inside_of_mem List.mem_cons_self)
      simp only [Condition.height]
      omega
    | path quantifier modality denotes =>
      have bound := only rfl denotes
        ((inside_of_mem List.mem_cons_self).trans (inside_of_mem List.mem_cons_self))
      simp only [Condition.height]
      omega
    | holdUntil quantifier denotes denotes' =>
      have bound := both rfl denotes denotes'
        ((inside_of_mem List.mem_cons_self).trans
          ((inside_of_mem List.mem_cons_self).trans (inside_of_mem List.mem_cons_self)))
        ((inside_of_mem List.mem_cons_self).trans
          ((inside_of_mem (List.mem_cons_of_mem _ List.mem_cons_self)).trans
            (inside_of_mem List.mem_cons_self)))
      simp only [Condition.height]
      omega
    | deadlock | alwaysTrue | alwaysFalse => exact le_heightBound width 1
    | conjunction _ each => exact combined stacks_conj rfl each (narrow _ .self (Or.inl rfl))
    | disjunction _ each => exact combined stacks_disj rfl each (narrow _ .self (Or.inr rfl))
    | exclusive denotes denotes' | implication denotes denotes' | equivalence denotes denotes' =>
      have bound := both rfl denotes denotes' (inside_of_mem List.mem_cons_self)
        (inside_of_mem (List.mem_cons_of_mem _ List.mem_cons_self))
      simp only [Condition.height]
      omega
    | compare relation denotes denotes' => exact height_comparison_le width denotes denotes'
    | greater denotes denotes' | greaterEqual denotes denotes' =>
      rw [Nat.max_comm]
      exact height_comparison_le width denotes' denotes

/-! ## Queries -/

/-- Everything that is read in an `observations` element is at most one higher than the limit. -/
theorem height_le_of_observables {limit : Nat} {e : Element} {watched : List Query.Observable}
    (read : (observables limit e).result = .ok watched) :
    ∀ observable ∈ watched, observable.2.height ≤ limit + 1 := by
  intro observable member
  obtain ⟨-, -, child, -, k, le, denotes⟩ := exists_observes_of_observables read observable member
  exact Nat.le_trans denotes.height_le (Nat.succ_le_succ le)

/-- A query has at most the height of a formula that uses all levels, and two more. -/
theorem height_le_of_propertyQuery {width limit : Nat} {e body : Element} {id : String}
    {query : Condition} (narrow : IsNarrow width body)
    (read : (propertyQuery limit (partsOf e) id body).result = .ok query) :
    query.height ≤ heightBound width limit + 2 := by
  rcases exists_denotes_of_propertyQuery read with
    ⟨-, k, le, denotes⟩ | ⟨-, goal, made, c, watched, -, ⟨k, le, denotes⟩, rfl, observed⟩
  · have more := heightBound_mono width le
    cases denotes with
    | kSafe denotes =>
      have bound := denotes.height_le
      have room := le_heightBound width k
      rw [Condition.height]
      omega
    | control denotes =>
      have bound := denotes.height_le ((narrow.child List.mem_cons_self).child List.mem_cons_self)
      rw [Condition.height]
      omega
    | plain denotes =>
      have bound := denotes.height_le (narrow.child List.mem_cons_self)
      omega
  · have more := heightBound_mono width le
    have room := le_heightBound width limit
    cases denotes with
    | mk goal denotes =>
      have bound := denotes.height_le ((narrow.child List.mem_cons_self).child List.mem_cons_self)
      have recorded : Expr.heightList (watched.map Prod.snd) ≤ limit + 1 := by
        rw [Query.Expr.heightList_le_iff]
        intro x member
        obtain ⟨observable, watchedOne, rfl⟩ := List.mem_map.1 member
        rcases observed with rfl | ⟨observations, found⟩
        · cases watchedOne
        · exact height_le_of_observables found observable watchedOne
      rw [Condition.height]
      omega

end Grammar

namespace Session

open Grammar
open Query (Condition)

/-- Every query that a history leaves is the one of a property in a root that was handed over. -/
theorem exists_propertyQuery_of_mem_run {options : Options} {calls : List Call} {item : Item}
    {query : Condition} (held : item ∈ ((start options).run calls).1.items)
    (has : item.query? = some query) :
    ∃ call ∈ calls, ∃ root body, call.root.result = .ok root ∧ Inside body root
      ∧ ∃ child,
        (propertyQuery options.maxDepth (partsOf child) item.id body).result = .ok query := by
  obtain ⟨call, called, root, handed, index, child, place, hasItem⟩ :=
    exists_hasItem_of_mem_run held
  obtain ⟨body, last, read⟩ := hasItem.exists_propertyQuery has
  refine ⟨call, called, root, body, handed, ?_, child, read⟩
  exact (inside_of_mem last.mem.1).trans (inside_of_mem (List.mem_of_getElem? place))

/-- The conjunction of that many deadlocks and two more. -/
def deadlocks (count : Nat) : Element :=
  .mk .conjunction "" .empty (List.replicate (count + 2) (.mk .deadlock "" .empty []))

/-- A set with one property, whose formula is such a conjunction. -/
def deadlockSet (count : Nat) : Element :=
  .mk .propertySet "" .empty [sampleProperty "q" (deadlocks count)]

/-- The operands of `deadlocks`, combined from the left. -/
def deadlockChain (count : Nat) : Condition :=
  (List.replicate (count + 1) .deadlock).foldl .conj .deadlock

theorem isNarrow_deadlockSet (count : Nat) : IsNarrow (count + 2) (deadlockSet count) := by
  -- Of the elements around the deadlocks, the conjunction alone has operands.
  have other : ∀ {tag : Tag} {text : String} {children : List Element}, tag ≠ .conjunction →
      tag ≠ .disjunction → (∀ child ∈ children, IsNarrow (count + 2) child) →
      IsNarrow (count + 2) (.mk tag text .empty children) := by
    intro tag text children notConjunction notDisjunction narrow
    apply isNarrow_iff.2
    exact ⟨fun wide => (wide.elim notConjunction notDisjunction).elim, narrow⟩
  have body : IsNarrow (count + 2) (deadlocks count) := by
    apply isNarrow_iff.2
    constructor
    · intro _
      exact Nat.le_of_eq List.length_replicate
    · intro child member
      rw [List.eq_of_mem_replicate member]
      exact other (by decide) (by decide) (List.forall_mem_nil _)
  have only : ∀ {e : Element}, IsNarrow (count + 2) e → ∀ child ∈ [e], IsNarrow (count + 2) child :=
    fun narrow => List.forall_mem_singleton.2 narrow
  apply other (by decide) (by decide)
  apply only
  apply other (by decide) (by decide)
  refine List.forall_mem_cons.2 ⟨?_, ?_⟩
  · exact other (by decide) (by decide) (List.forall_mem_nil _)
  · exact only (other (by decide) (by decide) (only body))

theorem lt_height_deadlockChain (count : Nat) : count < (deadlockChain count).height := by
  have grown := Query.stacks_conj.length_lt_height_foldl .deadlock
    (List.replicate (count + 1) .deadlock)
  rw [List.length_replicate] at grown
  rw [deadlockChain]
  omega

/-- A session that is handed a set with one property holds the query that the formula denotes. -/
theorem items_run_sampleSet {limit k : Nat} {body : Element} {query : Condition} (le : k ≤ limit)
    (denotes : Denotes body k query) :
    ((start ⟨[], limit⟩).run [.tree (.mk .propertySet "" .empty [sampleProperty "q" body])]).1.items
      = [⟨"q", some query, .ok⟩] := by
  let set : Element := .mk .propertySet "" .empty [sampleProperty "q" body]
  have item : ∀ property ∈ set.children, HasItem ⟨[], limit⟩ 0 property
      ⟨"q", some query, .ok⟩ := by
    intro property member
    obtain rfl := List.eq_of_mem_singleton member
    apply (hasItem_of_selected (Or.inl rfl)).2
    apply property_eq_ok_iff.2
    refine ⟨rfl, "q", propertyId?_eq_some_iff.1 (by rfl), Or.inr ⟨?_, _, _,
      lastChild?_eq_some_iff.1 (by rfl), ?_, rfl⟩⟩
    · rw [← isReachability_iff]
      exact Bool.false_ne_true
    · apply propertyQuery_eq_ok_iff.2
      refine Or.inl ⟨?_, formula_eq_ok_iff.2 ⟨k, le, .plain denotes⟩⟩
      exact List.forall_mem_cons.2 ⟨nofun, List.forall_mem_singleton.2 nofun⟩
  have read : (propertySet ⟨[], limit⟩ set).result = .ok [⟨"q", some query, .ok⟩] := by
    apply propertySet_eq_ok_iff.2
    refine ⟨rfl, rfl, ?_⟩
    intro index child found atChild atFound
    obtain ⟨bound, rfl⟩ := List.getElem?_eq_some_iff.1 atFound
    obtain rfl : index = 0 := Nat.lt_one_iff.1 bound
    exact item child (List.mem_of_getElem? atChild)
  have given : ((Call.tree set).items ⟨[], limit⟩).result = .ok [⟨"q", some query, .ok⟩] := read
  rw [run_eq, List.flatMap_singleton]
  change ((start ⟨[], limit⟩).call (.tree set)).1.items = _
  rw [items_call_start, given]

/-- Two levels are enough for a conjunction of deadlocks, however many they are. -/
theorem held_deadlockSet {limit : Nat} (two : 2 ≤ limit) (count : Nat) :
    ((start ⟨[], limit⟩).run [.tree (deadlockSet count)]).1.items
      = [⟨"q", some (deadlockChain count), .ok⟩] := by
  apply items_run_sampleSet two
  apply Denotes.conjunction
  · rw [List.length_replicate]
    exact Nat.le_add_left 2 count
  · exact each_replicate Denotes.deadlock (count + 1)

/-- **The height of a query is bounded by the limit on nesting and the width of the documents
together.** If no conjunction and no disjunction that a history has handed over has more operands
than some number, then every query that the session holds has at most the height of a formula that
uses all levels, and two more. -/
theorem height_of_held_queries (options : Options) (calls : List Call) (width : Nat)
    (narrow : ∀ call ∈ calls, ∀ root, call.root.result = .ok root → IsNarrow width root) :
    ∀ item ∈ ((start options).run calls).1.items, ∀ query, item.query? = some query →
      query.height ≤ (options.maxDepth - 1) * levelHeight width + 3 := by
  intro item held query has
  obtain ⟨call, called, root, body, handed, inside, child, read⟩ :=
    exists_propertyQuery_of_mem_run held has
  exact height_le_of_propertyQuery ((narrow call called root handed).inside inside) read

theorem height_of_held_queries_of_deadlockSet :
    IsNarrow 3 (deadlockSet 1)
      ∧ ∀ item ∈ ((start ⟨[], 2⟩).run [.tree (deadlockSet 1)]).1.items, ∀ query,
        item.query? = some query → query.height ≤ 6 := by
  refine ⟨isNarrow_deadlockSet 1, height_of_held_queries ⟨[], 2⟩ [.tree (deadlockSet 1)] 3 ?_⟩
  intro call called root handed
  obtain rfl := List.eq_of_mem_singleton called
  obtain rfl : deadlockSet 1 = root := Except.ok.inj handed
  exact isNarrow_deadlockSet 1

/-- The limit on nesting alone bounds the height of no query: under a limit of two, the queries of
conjunctions of ever more operands are ever higher. -/
theorem height_exceeds_every_bound_on_depth :
    ¬ ∃ bound : Nat → Nat, ∀ (options : Options) (calls : List Call),
      ∀ item ∈ ((start options).run calls).1.items, ∀ query, item.query? = some query →
        query.height ≤ bound options.maxDepth := by
  rintro ⟨bound, bounded⟩
  have high := lt_height_deadlockChain (bound 2)
  have held := held_deadlockSet (Nat.le_refl 2) (bound 2)
  have low := bounded ⟨[], 2⟩ [.tree (deadlockSet (bound 2))]
    ⟨"q", some (deadlockChain (bound 2)), .ok⟩ (held ▸ List.mem_singleton_self _) _ rfl
  exact absurd low (Nat.not_le.2 high)

/-- A limit on nesting bounds the height of queries by itself iff it is less than two. -/
theorem exists_bound_of_maxDepth_iff (limit : Nat) :
    (∃ bound, ∀ (options : Options) (calls : List Call), options.maxDepth = limit →
      ∀ item ∈ ((start options).run calls).1.items, ∀ query, item.query? = some query →
        query.height ≤ bound) ↔ limit < 2 := by
  constructor
  · rintro ⟨bound, bounded⟩
    by_contra two
    have held := held_deadlockSet (Nat.not_lt.1 two) bound
    have low := bounded ⟨[], limit⟩ [.tree (deadlockSet bound)] rfl
      ⟨"q", some (deadlockChain bound), .ok⟩ (held ▸ List.mem_singleton_self _) _ rfl
    exact absurd low (Nat.not_le.2 (lt_height_deadlockChain bound))
  · intro less
    refine ⟨3, ?_⟩
    rintro options calls rfl item held query has
    obtain ⟨-, -, -, body, -, -, child, read⟩ := exists_propertyQuery_of_mem_run held has
    obtain ⟨width, narrow⟩ := exists_isNarrow body
    have bound := height_le_of_propertyQuery narrow read
    rw [heightBound, Nat.sub_eq_zero_of_le (Nat.le_of_lt_succ less), Nat.zero_mul] at bound
    exact bound

end Session

end PetriQuery
