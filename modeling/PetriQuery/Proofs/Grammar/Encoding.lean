import PetriQuery.Proofs.Grammar.Derivation

/-!
# Elements for conditions

Which conditions can be written down as elements, and how. An expression is well formed if its names
are places' names and its chains have two or more operands; a condition is plain if it is a formula
of computation tree logic over such expressions.

`encode` writes a condition with the element of its own outermost operator, so it uses no element
for an operator that is no condition. Main fact: an element that encodes a plain condition denotes
it, with as many levels as the condition has (`denotes_encode`).
-/

set_option autoImplicit false

namespace PetriQuery

open Document (Element Tag)

namespace Query

/-! ## Well-formed expressions and plain conditions -/

/-- The name of a place can be written down: it is not empty, and no blank is in it. -/
def IsName (name : String) : Prop := name ≠ "" ∧ ∀ c ∈ name.toList, Text.isBlank c = false

mutual

/-- All names can be written down and all chains have two or more operands. -/
def Expr.WellFormed : Expr → Prop
  | .literal _ => True
  | .place name => IsName name
  | .chain _ operands => 2 ≤ operands.length ∧ Expr.AllWellFormed operands

/-- Each expression of a list is well formed. -/
def Expr.AllWellFormed : List Expr → Prop
  | [] => True
  | operand :: rest => operand.WellFormed ∧ Expr.AllWellFormed rest

end

/-- A list of expressions is well formed iff each of them is. -/
theorem Expr.allWellFormed_iff {xs : List Expr} :
    Expr.AllWellFormed xs ↔ ∀ x ∈ xs, x.WellFormed := by
  induction xs with
  | nil => simp [Expr.AllWellFormed]
  | cons x xs ih => rw [Expr.AllWellFormed, ih, List.forall_mem_cons]

/-- The condition is a formula over well-formed expressions: no property of a whole net and no
statistical query occurs in it. -/
def Condition.IsPlain : Condition → Prop
  | .truth _ | .deadlock => True
  | .neg body | .path _ _ body => body.IsPlain
  | .conj left right | .disj left right | .holdUntil _ left right => left.IsPlain ∧ right.IsPlain
  | .compare _ left right => left.WellFormed ∧ right.WellFormed
  | .kSafe _ | .control _ | .probability _ _ _ _ => False

/-- The condition is plain, or a property of a whole net over a well-formed expression or a plain
condition. -/
def Condition.IsQuery (c : Condition) : Prop :=
  c.IsPlain ∨ (∃ bound, bound.WellFormed ∧ c = .kSafe bound)
    ∨ ∃ body, body.IsPlain ∧ c = .control body

/-! ## Levels -/

mutual

/-- How many levels an expression nests. -/
def Expr.levels : Expr → Nat
  | .literal _ | .place _ => 1
  | .chain _ operands => Expr.levelsList operands + 1

/-- How many levels the expressions of a list nest at most. -/
def Expr.levelsList : List Expr → Nat
  | [] => 0
  | operand :: rest => max operand.levels (Expr.levelsList rest)

end

/-- How many levels a condition nests. A property of a whole net and a statistical query are no
levels of their own. -/
def Condition.levels : Condition → Nat
  | .truth _ | .deadlock => 1
  | .neg body | .path _ _ body => body.levels + 1
  | .conj left right | .disj left right | .holdUntil _ left right =>
    max left.levels right.levels + 1
  | .compare _ left right => max left.levels right.levels + 1
  | .kSafe bound => bound.levels
  | .control body | .probability _ _ body _ => body.levels

end Query

namespace Grammar

open Query (Condition Expr IsName Operator RunGoal Sampling)

/-! ## Encoding -/

/-- An element that holds nothing but its children. -/
def node (tag : Tag) (children : List Element) : Element := .mk tag "" .empty children

/-- The element that combines operands. -/
def operatorTag : Operator → Tag
  | .sum => .integerSum
  | .product => .integerProduct
  | .difference => .integerDifference

mutual

/-- The element for an expression. -/
def encodeExpr : Expr → Element
  | .literal value => .mk .integerConstant (toString value.toInt) .empty []
  | .place name => .mk .place name .empty []
  | .chain op operands => node (operatorTag op) (encodeExprs operands)

/-- The elements for a list of expressions. -/
def encodeExprs : List Expr → List Element
  | [] => []
  | operand :: rest => encodeExpr operand :: encodeExprs rest

end

/-- The element for a condition. -/
def encode : Condition → Element
  | .truth value => node (if value then .alwaysTrue else .alwaysFalse) []
  | .deadlock => node .deadlock []
  | .neg body => node .negation [encode body]
  | .conj left right => node .conjunction [encode left, encode right]
  | .disj left right => node .disjunction [encode left, encode right]
  | .compare relation left right => node (relationTag relation) [encodeExpr left, encodeExpr right]
  | .path quantifier modality body =>
    node (quantifierTag quantifier) [node (modalityTag modality) [encode body]]
  | .holdUntil quantifier before goal =>
    node (quantifierTag quantifier)
      [node .holdUntil [node .before [encode before], node .reach [encode goal]]]
  | .kSafe bound => node .kSafe [encodeExpr bound]
  | .control body => node .control [encode body]
  | .probability goal _ body _ => node (goalTag goal) [encode body]

/-- The `formula` element for a condition. -/
def encodeFormula (c : Condition) : Element := node .formula [encode c]

/-! ## Decoding -/

theorem length_encodeExprs (xs : List Expr) : (encodeExprs xs).length = xs.length := by
  induction xs with
  | nil => rfl
  | cons x xs ih => rw [encodeExprs, List.length_cons, List.length_cons, ih]

/-- A name without blanks is read from a `place` as it is written there. -/
theorem namesPlace_encodeExpr {name : String} (h : IsName name) :
    NamesPlace (encodeExpr (.place name)) name :=
  ⟨rfl, Text.strip_eq_iff.1 (Text.strip_eq_self h.2), h.1⟩

mutual

/-- The element for a well-formed expression denotes it. -/
theorem denotesExpr_encodeExpr : ∀ x : Expr, x.WellFormed → DenotesExpr (encodeExpr x) x.levels x
  | .literal value, _ => .constant (Numeral.writesInteger_toString value.toInt)
  | .place name, wellFormed => .place (namesPlace_encodeExpr wellFormed)
  | .chain op operands, wellFormed => by
    obtain ⟨two, all⟩ := wellFormed
    have two : 2 ≤ (encodeExprs operands).length := length_encodeExprs operands ▸ two
    have each := each_encodeExprs operands all
    cases op with
    | sum => exact .sum two each
    | product => exact .product two each
    | difference => exact .difference two each

/-- The elements for a list of well-formed expressions denote them. -/
theorem each_encodeExprs : ∀ xs : List Expr, Expr.AllWellFormed xs →
    Each DenotesExpr (encodeExprs xs) (Expr.levelsList xs) xs
  | [], _ => .nil
  | x :: xs, ⟨head, tail⟩ => .cons (denotesExpr_encodeExpr x head) (each_encodeExprs xs tail)

end

/-- No condition is written as a reachability formula. In particular the element for `EF` quantifies
over paths, and a negation right above it stays a negation. -/
theorem not_isReachabilityTag_encode (c : Condition) : ¬ IsReachabilityTag (encode c).tag := by
  have other : ∀ tag children, tag ≠ .invariant → tag ≠ .impossibility → tag ≠ .possibility →
      ¬ IsReachabilityTag (node tag children).tag := by
    rintro tag children one two three (same | same | same)
    · exact one same
    · exact two same
    · exact three same
  cases c with
  | truth value => cases value <;> exact other _ _ nofun nofun nofun
  | compare relation left right => cases relation <;> exact other _ _ nofun nofun nofun
  | path quantifier modality body => cases quantifier <;> exact other _ _ nofun nofun nofun
  | holdUntil quantifier before goal => cases quantifier <;> exact other _ _ nofun nofun nofun
  | probability goal settings body observables =>
    cases goal <;> exact other _ _ nofun nofun nofun
  | _ => exact other _ _ nofun nofun nofun

/-- Two elements denote two things. -/
theorem Each.two {α : Type} {Means : Element → Nat → α → Prop} {e e' : Element} {k m : Nat}
    {a b : α} (first : Means e k a) (second : Means e' m b) :
    Each Means [e, e'] (max k m) [a, b] := by
  have each := Each.cons first (Each.cons second Each.nil)
  rwa [Nat.max_zero] at each

/-- The element for a plain condition denotes it. -/
theorem denotes_encode {c : Condition} (plain : c.IsPlain) : Denotes (encode c) c.levels c := by
  induction c with
  | truth value =>
    cases value with
    | true => exact .alwaysTrue
    | false => exact .alwaysFalse
  | deadlock => exact .deadlock
  -- The negation rule needs that what is negated is not written as a reachability formula.
  | neg body ih => exact .negation (not_isReachabilityTag_encode body) (ih plain)
  | conj left right ih ih' =>
    refine .conjunction ?_ (.two (ih plain.1) (ih' plain.2))
    exact Nat.le_refl 2
  | disj left right ih ih' =>
    refine .disjunction ?_ (.two (ih plain.1) (ih' plain.2))
    exact Nat.le_refl 2
  | compare relation left right =>
    exact .compare relation (denotesExpr_encodeExpr left plain.1)
      (denotesExpr_encodeExpr right plain.2)
  | path quantifier modality body ih => exact .path quantifier modality (ih plain)
  | holdUntil quantifier before goal ih ih' =>
    exact .holdUntil quantifier (ih plain.1) (ih' plain.2)
  | kSafe bound => cases plain
  | control body => cases plain
  | probability goal settings body observables => cases plain

/-- The `formula` element for a query denotes it. -/
theorem denotesFormula_encodeFormula {c : Condition} (query : c.IsQuery) :
    DenotesFormula (encodeFormula c) c.levels c := by
  rcases query with plain | ⟨bound, wellFormed, rfl⟩ | ⟨body, plain, rfl⟩
  · exact .plain (denotes_encode plain)
  · exact .kSafe (denotesExpr_encodeExpr bound wellFormed)
  · exact .control (denotes_encode plain)

/-- The `formula` element for a statistical query over a plain condition denotes it under the
settings of the query. -/
theorem denotesStatistical_encodeFormula {c : Condition} (goal : RunGoal) (settings : Sampling)
    (plain : c.IsPlain) :
    DenotesStatistical settings (encodeFormula (.probability goal settings c [])) c.levels
      (.probability goal settings c []) :=
  .mk goal (denotes_encode plain)

end Grammar

end PetriQuery
