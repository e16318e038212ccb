import Mathlib.Tactic.Ring
import PetriQuery.Proofs.Grammar.Induction
import PetriQuery.Proofs.Height

/-!
# How large translations are

The size of a condition is the number of conditions and expressions in it, each counted as often as
it is written. Most elements are translated to a few nodes more than their children, but an
exclusive disjunction and an equivalence write both operands twice. So what an element is
translated to is bounded by the number of elements in it, doubled for each of the two on a path
(`Denotes.size_lt`). Without any of them that is linear.

The doubling is real: a chain of exclusive disjunctions (`doubled`) needs one level and two elements
for each, and its translation at least doubles with each (`two_pow_le_size_doubledCondition`). The
limit on nesting stops the chain only behind as many doublings as it allows levels
(`toCondition_doubled_eq_ok_iff`).
-/

set_option autoImplicit false

namespace PetriQuery

open Document (Element Tag)

/-! ## Sizes -/

namespace Document

mutual

/-- The number of elements in an element, with itself. -/
def Element.count : Element → Nat
  | .mk _ _ _ children => Element.countList children + 1

/-- The number of elements in the elements of a list. -/
def Element.countList : List Element → Nat
  | [] => 0
  | e :: rest => e.count + Element.countList rest

end

/-- One for the kinds of elements whose operands are written twice, and zero for the others. -/
def Tag.doubling : Tag → Nat
  | .exclusiveDisjunction | .equivalence => 1
  | _ => 0

mutual

/-- The largest number of elements that write their operands twice on a path into an element. -/
def Element.doublings : Element → Nat
  | .mk tag _ _ children => Element.doublingsList children + tag.doubling

/-- The largest number of these elements on a path into an element of a list. -/
def Element.doublingsList : List Element → Nat
  | [] => 0
  | e :: rest => max e.doublings (Element.doublingsList rest)

end

end Document

namespace Query

mutual

/-- The number of expressions in an expression, with itself. -/
def Expr.size : Expr → Nat
  | .literal _ | .place _ => 1
  | .chain _ operands => Expr.sizeList operands + 1

/-- The number of expressions in the expressions of a list. -/
def Expr.sizeList : List Expr → Nat
  | [] => 0
  | operand :: rest => operand.size + Expr.sizeList rest

end

/-- The number of conditions and expressions in a condition, with itself. -/
def Condition.size : Condition → Nat
  | .truth _ | .deadlock => 1
  | .neg body | .path _ _ body | .control body => body.size + 1
  | .conj left right | .disj left right | .holdUntil _ left right => left.size + right.size + 1
  | .compare _ left right => left.size + right.size + 1
  | .kSafe bound => bound.size + 1
  | .probability _ _ body observables =>
    body.size + Expr.sizeList (observables.map Prod.snd) + 1

/-- The operator puts one node on top of its operands. -/
def Joins (op : Condition → Condition → Condition) : Prop :=
  ∀ c d, (op c d).size = c.size + d.size + 1

theorem joins_conj : Joins .conj := fun _ _ => rfl

theorem joins_disj : Joins .disj := fun _ _ => rfl

/-- Operands combined from the left have one node more for each of them but the first. -/
theorem Joins.size_foldl_add_one {op : Condition → Condition → Condition} (joins : Joins op)
    (c : Condition) (cs : List Condition) :
    (cs.foldl op c).size + 1 = ((c :: cs).map fun d => d.size + 1).sum := by
  induction cs generalizing c with
  | nil => rfl
  | cons d cs ih =>
    rw [List.foldl_cons, ih, List.map_cons, List.map_cons, List.map_cons, List.sum_cons,
      List.sum_cons, List.sum_cons, joins c d]
    omega

end Query

namespace Grammar

open Query (Condition Expr Joins joins_conj joins_disj)

/-! ## Room for translations -/

/-- How many nodes an element pays for: five for each element in it, and that doubled for each
element on a path that writes its operands twice. -/
def weight (e : Element) : Nat := 5 * 2 ^ e.doublings * e.count

/-- How many nodes the elements of a list pay for. -/
def room (es : List Element) : Nat := 5 * 2 ^ Element.doublingsList es * Element.countList es

/-- The elements of a list pay for no more nodes alone than together. -/
theorem weight_add_room_le (e : Element) (es : List Element) :
    weight e + room es ≤ room (e :: es) := by
  have head : 2 ^ e.doublings ≤ 2 ^ Element.doublingsList (e :: es) :=
    Nat.pow_le_pow_right Nat.two_pos (Nat.le_max_left _ _)
  have tail : 2 ^ Element.doublingsList es ≤ 2 ^ Element.doublingsList (e :: es) :=
    Nat.pow_le_pow_right Nat.two_pos (Nat.le_max_right _ _)
  rw [weight, room, room, Element.countList, Nat.mul_add]
  apply Nat.add_le_add
  · exact Nat.mul_le_mul_right _ (Nat.mul_le_mul_left 5 head)
  · exact Nat.mul_le_mul_right _ (Nat.mul_le_mul_left 5 tail)

/-- An element pays for five nodes more than its children, and for twice as many if it writes its
operands twice. -/
theorem room_add_five_le (tag : Tag) (text : String) (attributes : Document.Attributes)
    (es : List Element) :
    2 ^ tag.doubling * (room es + 5) ≤ weight (.mk tag text attributes es) := by
  -- The element itself counts at the price of what is in it, which is no less than five.
  have power : 1 ≤ 2 ^ Element.doublingsList es := Nat.one_le_two_pow
  rw [weight, room, Element.doublings, Element.count, Nat.pow_add]
  calc 2 ^ tag.doubling * (5 * 2 ^ Element.doublingsList es * Element.countList es + 5)
      ≤ 2 ^ tag.doubling * (5 * 2 ^ Element.doublingsList es * Element.countList es
          + 5 * 2 ^ Element.doublingsList es) := by
        apply Nat.mul_le_mul_left
        apply Nat.add_le_add_left
        exact Nat.le_mul_of_pos_right 5 power
    _ = 5 * (2 ^ Element.doublingsList es * 2 ^ tag.doubling) * (Element.countList es + 1) := by
        ring

section

variable {tag : Tag} {text : String} {attributes : Document.Attributes} {e e' : Element}
  {es : List Element}

theorem room_le_weight : room es + 5 ≤ weight (.mk tag text attributes es) := by
  refine Nat.le_trans ?_ (room_add_five_le tag text attributes es)
  exact Nat.le_mul_of_pos_left _ (Nat.two_pow_pos tag.doubling)

/-- Any element pays for more than four nodes. -/
theorem four_lt_weight (e : Element) : 4 < weight e := by
  obtain ⟨tag, text, attributes, es⟩ := e
  exact Nat.lt_of_lt_of_le (Nat.le_add_left 5 (room es)) room_le_weight

theorem weight_le_room : weight e ≤ room [e] :=
  Nat.le_trans (Nat.le_add_right _ _) (weight_add_room_le e [])

theorem weight_add_weight_le_room : weight e + weight e' ≤ room [e, e'] :=
  Nat.le_trans (Nat.add_le_add_left weight_le_room _) (weight_add_room_le e [e'])

theorem weight_only_le : weight e + 5 ≤ weight (.mk tag text attributes [e]) :=
  Nat.le_trans (Nat.add_le_add_right weight_le_room 5) room_le_weight

theorem weight_both_le : weight e + weight e' + 5 ≤ weight (.mk tag text attributes [e, e']) :=
  Nat.le_trans (Nat.add_le_add_right weight_add_weight_le_room 5) room_le_weight

/-- An element that writes its operands twice pays for that. -/
theorem weight_twice_le (twice : tag.doubling = 1) :
    2 * (weight e + weight e') + 10 ≤ weight (.mk tag text attributes [e, e']) := by
  have both := @weight_add_weight_le_room e e'
  have below := room_add_five_le tag text attributes [e, e']
  rw [twice, Nat.pow_one] at below
  omega

end

/-- If each element of a list pays for one node more than its translation has, then all together do
for all translations. -/
theorem sum_le_room {α : Type} {nodes : α → Nat} {es : List Element} {as : List α}
    (each : List.Forall₂ (fun e a => nodes a < weight e) es as) :
    (as.map fun a => nodes a + 1).sum ≤ room es := by
  induction each with
  | nil => exact Nat.zero_le _
  | @cons e a es as head _ ih =>
    rw [List.map_cons, List.sum_cons]
    exact Nat.le_trans (Nat.add_le_add head ih) (weight_add_room_le e es)

/-! ## Translations -/

/-- A list of expressions has no more nodes than one more for each of them would make. -/
theorem sizeList_le_sum (xs : List Expr) :
    Expr.sizeList xs ≤ (xs.map fun x => x.size + 1).sum := by
  induction xs with
  | nil => exact Nat.le_refl 0
  | cons x xs ih =>
    rw [Expr.sizeList, List.map_cons, List.sum_cons]
    exact Nat.add_le_add (Nat.le_succ x.size) ih

section

variable {tag : Tag} {text : String} {attributes : Document.Attributes} {es : List Element}

/-- Operands that their elements pay for make a chain that the element above them pays for. -/
theorem size_chain_lt {op : Query.Operator} {xs : List Expr}
    (each : List.Forall₂ (fun e x => x.size < weight e) es xs) :
    (Expr.chain op xs).size < weight (.mk tag text attributes es) := by
  have few := sizeList_le_sum xs
  have paid := sum_le_room each
  apply Nat.lt_of_lt_of_le _ room_le_weight
  rw [Expr.size]
  omega

/-- An expression has fewer nodes than its element pays for. -/
theorem DenotesExpr.size_lt {e : Element} {k : Nat} {x : Expr} (h : DenotesExpr e k x) :
    x.size < weight e := by
  have leaf : ∀ {x : Expr} (e : Element), x.size = 1 → x.size < weight e := by
    intro x e one
    exact one ▸ Nat.lt_trans (by decide) (four_lt_weight e)
  -- Of the members of a list, only the sizes count, and not by which derivations they come.
  have sizes : ∀ {es : List Element} {xs : List Expr},
      List.Forall₂ (fun e x => ∃ m, ∃ _ : DenotesExpr e m x, x.size < weight e) es xs →
      List.Forall₂ (fun e x => x.size < weight e) es xs := by
    intro es xs each
    exact each.imp fun _ _ ⟨_, _, paid⟩ => paid
  induction h using DenotesExpr.rec' with
  | constant _ => exact leaf _ rfl
  | place _ => exact leaf _ rfl
  | onePlace _ => exact leaf _ rfl
  | places _ named =>
    apply size_chain_lt
    rw [List.forall₂_map_right_iff]
    exact named.imp fun e name _ => leaf e rfl
  | sum _ _ each => exact size_chain_lt (sizes each)
  | product _ _ each => exact size_chain_lt (sizes each)
  | opposite _ paid =>
    apply Nat.lt_of_lt_of_le _ weight_only_le
    simp only [Expr.size, Expr.sizeList]
    omega
  | difference _ _ each => exact size_chain_lt (sizes each)

/-- A comparison has fewer nodes than its element pays for. -/
theorem size_comparison_lt {a b : Element} {k m : Nat} {x y : Expr} (first : DenotesExpr a k x)
    (second : DenotesExpr b m y) :
    x.size + y.size + 1 < weight (.mk tag text attributes [a, b]) := by
  have left := first.size_lt
  have right := second.size_lt
  apply Nat.lt_of_lt_of_le _ weight_both_le
  omega

/-- Operands that their elements pay for make a combination that the element above them pays for. -/
theorem size_combination_lt {op : Condition → Condition → Condition} (joins : Joins op)
    {c : Condition} {cs : List Condition}
    (each : List.Forall₂ (fun φ d => d.size < weight φ) es (c :: cs)) :
    (cs.foldl op c).size < weight (.mk tag text attributes es) := by
  -- There is no bound on the number of operands, so the five nodes that an element adds do not pay
  -- for joining them. What each operand leaves does: this is why the inequality is strict.
  have nodes := joins.size_foldl_add_one c cs
  have paid := sum_le_room each
  apply Nat.lt_of_lt_of_le _ room_le_weight
  omega

end

/-- **A condition has fewer nodes than its element pays for.** -/
theorem Denotes.size_lt {e : Element} {k : Nat} {c : Condition} (h : Denotes e k c) :
    c.size < weight e := by
  have leaf : ∀ {c : Condition} (e : Element), c.size = 1 → c.size < weight e := by
    intro c e one
    exact one ▸ Nat.lt_trans (by decide) (four_lt_weight e)
  have sizes : ∀ {φs : List Element} {cs : List Condition},
      List.Forall₂ (fun φ c => ∃ m, ∃ _ : Denotes φ m c, c.size < weight φ) φs cs →
      List.Forall₂ (fun φ c => c.size < weight φ) φs cs := by
    intro φs cs each
    exact each.imp fun _ _ ⟨_, _, paid⟩ => paid
  induction h using Denotes.rec' with
  | invariant _ paid | impossibility _ paid | possibility _ paid | negation _ _ paid =>
    apply Nat.lt_of_lt_of_le _ weight_only_le
    simp only [Condition.size]
    omega
  | notInvariant _ paid | notImpossibility _ paid | notPossibility _ paid | path _ _ _ paid =>
    -- There are two elements around the operand, and one of them would be enough.
    apply Nat.lt_of_lt_of_le _ (Nat.le_trans (Nat.le_add_right _ 5) weight_only_le)
    apply Nat.lt_of_lt_of_le _ weight_only_le
    simp only [Condition.size]
    omega
  | holdUntil _ _ _ paid paid' =>
    apply Nat.lt_of_lt_of_le _ (Nat.le_trans (Nat.le_add_right _ 5) weight_only_le)
    apply Nat.lt_of_lt_of_le _ weight_both_le
    apply Nat.lt_of_lt_of_le _
      (Nat.add_le_add_right (Nat.add_le_add weight_only_le weight_only_le) 5)
    rw [Condition.size]
    omega
  | deadlock => exact leaf _ rfl
  | alwaysTrue => exact leaf _ rfl
  | alwaysFalse => exact leaf _ rfl
  | conjunction _ _ each => exact size_combination_lt joins_conj (sizes each)
  | disjunction _ _ each => exact size_combination_lt joins_disj (sizes each)
  | exclusive _ _ paid paid' | equivalence _ _ paid paid' =>
    -- Each operand is there once as it is and once negated.
    apply Nat.lt_of_lt_of_le _ (weight_twice_le rfl)
    simp only [Condition.size]
    omega
  | implication _ _ paid paid' =>
    apply Nat.lt_of_lt_of_le _ weight_both_le
    simp only [Condition.size]
    omega
  | compare _ first second => exact size_comparison_lt first second
  | greater first second | greaterEqual first second =>
    rw [Condition.size, Nat.add_comm (Expr.size _)]
    exact size_comparison_lt first second

/-! ## Chains that double -/

/-- That many exclusive disjunctions, each of them the second operand of the one around it. -/
def doubled : Nat → Element
  | 0 => .mk .deadlock "" .empty []
  | k + 1 => .mk .exclusiveDisjunction "" .empty [.mk .deadlock "" .empty [], doubled k]

/-- What the chain is translated to. -/
def doubledCondition : Nat → Condition
  | 0 => .deadlock
  | k + 1 => exclusive .deadlock (doubledCondition k)

/-- A chain has two elements for each of its exclusive disjunctions, and one more. -/
theorem count_doubled (k : Nat) : (doubled k).count = 2 * k + 1 := by
  induction k with
  | zero => rfl
  | succ k ih =>
    rw [doubled, Element.count, Element.countList, Element.countList, Element.countList, ih,
      Element.count, Element.countList]
    omega

theorem doublings_doubled (k : Nat) : (doubled k).doublings = k := by
  induction k with
  | zero => rfl
  | succ k ih =>
    rw [doubled, Element.doublings, Element.doublingsList, Element.doublingsList,
      Element.doublingsList, ih, Nat.max_zero]
    exact congrArg (· + 1) (Nat.zero_max k)

/-- A chain uses a level for each exclusive disjunction, and one more. -/
theorem denotes_doubled (k : Nat) : Denotes (doubled k) (k + 1) (doubledCondition k) := by
  induction k with
  | zero => exact .deadlock
  | succ k ih =>
    have both : Denotes (doubled (k + 1)) (max 1 (k + 1) + 1) (doubledCondition (k + 1)) :=
      .exclusive .deadlock ih
    rwa [Nat.max_eq_right (Nat.le_add_left 1 k)] at both

/-- A chain that is read has a level left for each exclusive disjunction, and one more. -/
theorem lt_of_toCondition_doubled {limit left k : Nat} {c : Condition}
    (read : (toCondition limit left (doubled k)).result = .ok c) : k < left := by
  induction k generalizing left c with
  | zero =>
    cases left with
    | zero => cases read
    | succ left => exact Nat.succ_pos left
  | succ k ih =>
    cases left with
    | zero => cases read
    | succ left =>
      obtain ⟨φ, ψ, first, second, children, -, inner, -⟩ := (pair_build_eq_ok_iff exclusive).1 read
      obtain ⟨rfl, rfl⟩ : .mk .deadlock "" .empty [] = φ ∧ doubled k = ψ := by
        simpa using (List.cons.inj children)
      exact Nat.succ_lt_succ (ih inner)

/-- Enough levels for a chain are one more than it has exclusive disjunctions. -/
theorem toCondition_doubled_eq_ok_iff {limit left k : Nat} {c : Condition} :
    (toCondition limit left (doubled k)).result = .ok c ↔ k < left ∧ c = doubledCondition k := by
  have enough (lt : k < left) :
      (toCondition limit left (doubled k)).result = .ok (doubledCondition k) :=
    toCondition_eq_ok_iff.2 ⟨k + 1, lt, denotes_doubled k⟩
  constructor
  · intro read
    have lt := lt_of_toCondition_doubled read
    exact ⟨lt, Except.ok.inj (read.symm.trans (enough lt))⟩
  · rintro ⟨lt, rfl⟩
    exact enough lt

/-- Each exclusive disjunction writes the rest of the chain twice. -/
theorem two_pow_le_size_doubledCondition (k : Nat) : 2 ^ k ≤ (doubledCondition k).size := by
  induction k with
  | zero => exact Nat.le_refl 1
  | succ k ih =>
    rw [doubledCondition, exclusive, Nat.pow_succ]
    simp only [Condition.size]
    omega

end Grammar

namespace Session

open Grammar

/-- A set with one property, whose formula is such a chain. -/
def doubledSet (k : Nat) : Element :=
  .mk .propertySet "" .empty [sampleProperty "q" (doubled k)]

/-- The set has the elements of the chain and four around it. -/
theorem count_doubledSet (k : Nat) : (doubledSet k).count = 2 * k + 5 := by
  simp only [doubledSet, sampleProperty, Element.count, Element.countList, count_doubled]
  omega

/-- A limit on nesting that leaves enough levels for a chain lets its translation into a session. -/
theorem exists_large_query {limit k : Nat} (lt : k < limit) :
    ∃ query, ((start ⟨[], limit⟩).run [.tree (doubledSet k)]).1.items = [⟨"q", some query, .ok⟩]
      ∧ 2 ^ k ≤ query.size :=
  ⟨doubledCondition k, items_run_sampleSet lt (denotes_doubled k),
    two_pow_le_size_doubledCondition k⟩

/-- **The size of a translation is governed by the elements that write their operands twice.** A
condition has at most five nodes for each element of its formula, doubled for each of those on a
path, so without any of them its size is linear. And they do double: the chain of any number of
exclusive disjunctions has two elements for each and one more, is read iff the limit leaves as many
levels and one, and is translated to at least two to the power of their number. So a limit on
nesting does not stop a small document from becoming a query of that size; by default it lets one of
515 elements grow beyond two to the power of 255. -/
theorem size_of_translation :
    (∀ (limit left : Nat) (e : Element) (c : Query.Condition),
        (toCondition limit left e).result = .ok c → c.size ≤ 5 * 2 ^ e.doublings * e.count)
      ∧ (∀ (limit left : Nat) (e : Element) (c : Query.Condition), e.doublings = 0 →
        (toCondition limit left e).result = .ok c → c.size ≤ 5 * e.count)
      ∧ (∀ k, (doubled k).count = 2 * k + 1 ∧ (doubled k).doublings = k
        ∧ (∀ limit left, (∃ c, (toCondition limit left (doubled k)).result = .ok c) ↔ k + 1 ≤ left)
        ∧ ∀ limit left c, (toCondition limit left (doubled k)).result = .ok c → 2 ^ k ≤ c.size)
      ∧ (∀ limit k, k < limit → (doubledSet k).count = 2 * k + 5
        ∧ ∃ query, ((start ⟨[], limit⟩).run [.tree (doubledSet k)]).1.items
            = [⟨"q", some query, .ok⟩] ∧ 2 ^ k ≤ query.size)
      ∧ (doubledSet 255).count = 515
        ∧ ∃ query, ((start .default).run [.tree (doubledSet 255)]).1.items
            = [⟨"q", some query, .ok⟩] ∧ 2 ^ 255 ≤ query.size := by
  have bound {limit left : Nat} {e : Element} {c : Query.Condition}
      (read : (toCondition limit left e).result = .ok c) : c.size ≤ weight e := by
    obtain ⟨k, -, denotes⟩ := toCondition_eq_ok_iff.1 read
    exact Nat.le_of_lt denotes.size_lt
  refine ⟨?_, ?_, ?_, ?_, ?_, ?_⟩
  · intro limit left e c read
    exact bound read
  · intro limit left e c none read
    have linear := bound read
    rwa [weight, none, Nat.pow_zero, Nat.mul_one] at linear
  · intro k
    refine ⟨count_doubled k, doublings_doubled k, ?_, ?_⟩
    · intro limit left
      simp only [toCondition_doubled_eq_ok_iff, exists_and_left, exists_eq, and_true]
      exact Iff.rfl
    · intro limit left c read
      rw [(toCondition_doubled_eq_ok_iff.1 read).2]
      exact two_pow_le_size_doubledCondition k
  · intro limit k lt
    exact ⟨count_doubledSet k, exists_large_query lt⟩
  · exact count_doubledSet 255
  · have default : Options.default = ⟨[], 256⟩ := rfl
    rw [default]
    exact exists_large_query (by decide)

theorem size_of_translation_of_single_doubling :
    (toCondition 2 2 (doubled 1)).result
        = .ok (.disj (.conj .deadlock (.neg .deadlock)) (.conj (.neg .deadlock) .deadlock))
      ∧ (doubledCondition 1).size ≤ 5 * 2 ^ 1 * 3
      ∧ 2 ^ 1 ≤ (doubledCondition 1).size
      ∧ (Query.Condition.deadlock).size ≤ 5 * 1
      ∧ ∃ query, ((start ⟨[], 2⟩).run [.tree (doubledSet 1)]).1.items = [⟨"q", some query, .ok⟩]
        ∧ 2 ^ 1 ≤ query.size := by
  obtain ⟨bounded, linear, grows, held, -⟩ := size_of_translation
  obtain ⟨-, -, -, large⟩ := grows 1
  obtain ⟨-, query⟩ := held 2 1 (by decide)
  refine ⟨rfl, bounded 2 2 (doubled 1) _ rfl, large 2 2 _ rfl, ?_, query⟩
  exact linear 1 1 (doubled 0) _ rfl rfl

end Session

end PetriQuery
