import PetriQuery.Grammar.Formula
import PetriQuery.Proofs.Numeral.Decimal

/-!
# The grammar of formulae

Which conditions and expressions elements denote, as derivations: one rule for each kind of element.
A derivation knows no limit on nesting; it counts the levels that it uses instead. Each formula and
each expression is a level, with three exceptions:

- a path quantifier is one level with the modality below it, and with `before` and `reach` if the
  modality is `until`;
- a negation is one level with an `invariant`, `impossibility` or `possibility` right below it;
- a `tokens-count` is one level with its places.

Constants and places are judged by their text alone, whatever is inside them.
-/

set_option autoImplicit false

namespace PetriQuery.Grammar

open Document (Element Tag)
open Query (Condition Expr Modality PathQuantifier Relation RunGoal Sampling)

/-- Each element of a list denotes the member at its place. The number of levels is the largest one
that an element of the list uses. -/
inductive Each {α : Type} (Means : Element → Nat → α → Prop) : List Element → Nat → List α → Prop
  | nil : Each Means [] 0 []
  | cons {e : Element} {k : Nat} {a : α} {es : List Element} {m : Nat} {as : List α} :
      Means e k a → Each Means es m as → Each Means (e :: es) (max k m) (a :: as)

/-! ## Expressions -/

/-- The element is a `place`, and the characters of its text that are not blank are the name. The
name is not empty. -/
def NamesPlace (e : Element) (name : String) : Prop :=
  e.tag = .place ∧ name.toList = e.text.toList.filter (fun c => !Text.isBlank c) ∧ name ≠ ""

/-- The element denotes the expression and uses that many levels. -/
inductive DenotesExpr : Element → Nat → Expr → Prop
  | constant {text attributes children} {value : Int32} :
      Numeral.WritesInteger text value.toInt →
      DenotesExpr (.mk .integerConstant text attributes children) 1 (.literal value)
  | place {e name} : NamesPlace e name → DenotesExpr e 1 (.place name)
  | onePlace {text attributes e name} :
      NamesPlace e name → DenotesExpr (.mk .tokensCount text attributes [e]) 1 (.place name)
  | places {text attributes es names} :
      2 ≤ es.length → List.Forall₂ NamesPlace es names →
      DenotesExpr (.mk .tokensCount text attributes es) 1 (.chain .sum (names.map .place))
  | sum {text attributes es k xs} :
      2 ≤ es.length → Each DenotesExpr es k xs →
      DenotesExpr (.mk .integerSum text attributes es) (k + 1) (.chain .sum xs)
  | product {text attributes es k xs} :
      2 ≤ es.length → Each DenotesExpr es k xs →
      DenotesExpr (.mk .integerProduct text attributes es) (k + 1) (.chain .product xs)
  | opposite {text attributes e k x} :
      DenotesExpr e k x →
      DenotesExpr (.mk .integerDifference text attributes [e]) (k + 1)
        (.chain .difference [.literal 0, x])
  | difference {text attributes es k xs} :
      2 ≤ es.length → Each DenotesExpr es k xs →
      DenotesExpr (.mk .integerDifference text attributes es) (k + 1) (.chain .difference xs)

/-! ## Formulae -/

/-- The element that quantifies over paths. -/
def quantifierTag : PathQuantifier → Tag
  | .somePath => .existsPath
  | .everyPath => .allPaths

/-- The element that is a modality. -/
def modalityTag : Modality → Tag
  | .next => .next
  | .always => .always
  | .eventually => .eventually

/-- The element that states a relation of its operands in the order in which they stand. -/
def relationTag : Relation → Tag
  | .equal => .integerEq
  | .notEqual => .integerNe
  | .less => .integerLt
  | .lessEqual => .integerLe

/-- The kinds of formulae into which a negation right above them is written. -/
def IsReachabilityTag (tag : Tag) : Prop :=
  tag = .invariant ∨ tag = .impossibility ∨ tag = .possibility

/-- The element denotes the condition and uses that many levels. -/
inductive Denotes : Element → Nat → Condition → Prop
  | invariant {text attributes φ k c} :
      Denotes φ k c →
      Denotes (.mk .invariant text attributes [φ]) (k + 1)
        (.neg (.path .somePath .eventually c.neg))
  | impossibility {text attributes φ k c} :
      Denotes φ k c →
      Denotes (.mk .impossibility text attributes [φ]) (k + 1)
        (.neg (.path .somePath .eventually c))
  | possibility {text attributes φ k c} :
      Denotes φ k c →
      Denotes (.mk .possibility text attributes [φ]) (k + 1) (.path .somePath .eventually c)
  | notInvariant {text attributes text' attributes' φ k c} :
      Denotes φ k c →
      Denotes (.mk .negation text attributes [.mk .invariant text' attributes' [φ]]) (k + 1)
        (.path .somePath .eventually c.neg)
  | notImpossibility {text attributes text' attributes' φ k c} :
      Denotes φ k c →
      Denotes (.mk .negation text attributes [.mk .impossibility text' attributes' [φ]]) (k + 1)
        (.path .somePath .eventually c)
  | notPossibility {text attributes text' attributes' φ k c} :
      Denotes φ k c →
      Denotes (.mk .negation text attributes [.mk .possibility text' attributes' [φ]]) (k + 1)
        (.neg (.path .somePath .eventually c))
  | negation {text attributes φ k c} :
      ¬ IsReachabilityTag φ.tag → Denotes φ k c →
      Denotes (.mk .negation text attributes [φ]) (k + 1) c.neg
  | path {text attributes text' attributes' φ k c} (quantifier : PathQuantifier)
      (modality : Modality) :
      Denotes φ k c →
      Denotes (.mk (quantifierTag quantifier) text attributes
          [.mk (modalityTag modality) text' attributes' [φ]]) (k + 1)
        (.path quantifier modality c)
  | holdUntil {text attributes text' attributes' textB attributesB textR attributesR φ k c ψ m d}
      (quantifier : PathQuantifier) :
      Denotes φ k c → Denotes ψ m d →
      Denotes (.mk (quantifierTag quantifier) text attributes
          [.mk .holdUntil text' attributes'
            [.mk .before textB attributesB [φ], .mk .reach textR attributesR [ψ]]]) (max k m + 1)
        (.holdUntil quantifier c d)
  | deadlock {text attributes} : Denotes (.mk .deadlock text attributes []) 1 .deadlock
  | alwaysTrue {text attributes} : Denotes (.mk .alwaysTrue text attributes []) 1 (.truth true)
  | alwaysFalse {text attributes} : Denotes (.mk .alwaysFalse text attributes []) 1 (.truth false)
  | conjunction {text attributes φs k c cs} :
      2 ≤ φs.length → Each Denotes φs k (c :: cs) →
      Denotes (.mk .conjunction text attributes φs) (k + 1) (cs.foldl .conj c)
  | disjunction {text attributes φs k c cs} :
      2 ≤ φs.length → Each Denotes φs k (c :: cs) →
      Denotes (.mk .disjunction text attributes φs) (k + 1) (cs.foldl .disj c)
  | exclusive {text attributes φ k c ψ m d} :
      Denotes φ k c → Denotes ψ m d →
      Denotes (.mk .exclusiveDisjunction text attributes [φ, ψ]) (max k m + 1)
        (.disj (.conj c d.neg) (.conj c.neg d))
  | implication {text attributes φ k c ψ m d} :
      Denotes φ k c → Denotes ψ m d →
      Denotes (.mk .implication text attributes [φ, ψ]) (max k m + 1) (.disj c.neg d)
  | equivalence {text attributes φ k c ψ m d} :
      Denotes φ k c → Denotes ψ m d →
      Denotes (.mk .equivalence text attributes [φ, ψ]) (max k m + 1)
        (.disj (.conj c d) (.conj c.neg d.neg))
  | compare {text attributes a k x b m y} (relation : Relation) :
      DenotesExpr a k x → DenotesExpr b m y →
      Denotes (.mk (relationTag relation) text attributes [a, b]) (max k m + 1)
        (.compare relation x y)
  | greater {text attributes a k x b m y} :
      DenotesExpr a k x → DenotesExpr b m y →
      Denotes (.mk .integerGt text attributes [a, b]) (max k m + 1) (.compare .less y x)
  | greaterEqual {text attributes a k x b m y} :
      DenotesExpr a k x → DenotesExpr b m y →
      Denotes (.mk .integerGe text attributes [a, b]) (max k m + 1) (.compare .lessEqual y x)

/-! ## Roots -/

/-- The content of a `formula` element denotes the condition: a property of a whole net or a
formula. The element below `formula` that names the property of a whole net is no level. -/
inductive DenotesFormula : Element → Nat → Condition → Prop
  | kSafe {tag text attributes text' attributes' e k x} :
      DenotesExpr e k x →
      DenotesFormula (.mk tag text attributes [.mk .kSafe text' attributes' [e]]) k (.kSafe x)
  | control {tag text attributes text' attributes' φ k c} :
      Denotes φ k c →
      DenotesFormula (.mk tag text attributes [.mk .control text' attributes' [φ]]) k (.control c)
  | plain {tag text attributes φ k c} :
      Denotes φ k c → DenotesFormula (.mk tag text attributes [φ]) k c

/-- The element that names what runs are sampled for. -/
def goalTag : RunGoal → Tag
  | .eventually => .eventually
  | .always => .always

/-- The content of a `formula` element denotes the statistical query with the given settings. The
query has no observables. -/
inductive DenotesStatistical (settings : Sampling) : Element → Nat → Condition → Prop
  | mk {tag text attributes text' attributes' φ k c} (goal : RunGoal) :
      Denotes φ k c →
      DenotesStatistical settings
        (.mk tag text attributes [.mk (goalTag goal) text' attributes' [φ]]) k
        (.probability goal settings c [])

end PetriQuery.Grammar
