import PetriQuery.Document.Element
import PetriQuery.Proofs.Numeral.Decimal
import PetriQuery.Proofs.Semantics.System

/-!
# The meaning of elements

The meaning of formula elements over a transition system, read off the elements themselves: no
condition occurs in it. A state satisfies an invariant if the operand holds in all states of all its
paths, an implication if it satisfies the second operand whenever it satisfies the first, and so on.

An element that is no formula holds nowhere, and one that is no expression has the value zero.
-/

set_option autoImplicit false

namespace PetriQuery.Document.Element

open Query (Run System)

universe u

/-! ## Expressions -/

/-- The tokens in the places that a list of elements names, added up. -/
def tokensIn (tokens : String → Int) (places : List Element) : Int :=
  (places.map fun place => tokens (Text.strip place.text)).sum

mutual

/-- The value of an expression element in a marking. -/
def value (tokens : String → Int) : Element → Int
  | mk .integerConstant text _ _ => Numeral.numeralValue (Text.trimmed text.toList)
  | mk .place text _ _ => tokens (Text.strip text)
  | mk .tokensCount _ _ places => tokensIn tokens places
  | mk .integerSum _ _ operands => (values tokens operands).sum
  | mk .integerProduct _ _ operands => (values tokens operands).prod
  | mk .integerDifference _ _ [operand] => -operand.value tokens
  | mk .integerDifference _ _ (operand :: operands) =>
    operand.value tokens - (values tokens operands).sum
  | _ => 0

/-- The values of expression elements. -/
def values (tokens : String → Int) : List Element → List Int
  | [] => []
  | e :: es => e.value tokens :: values tokens es

end

/-! ## Formulae -/

mutual

/-- The formula element holds in the state. -/
def Holds (M : System.{u}) : Element → M.State → Prop
  | mk .invariant _ _ [φ], s => ∀ π, M.IsPath s π → π.Always (φ.Holds M)
  | mk .impossibility _ _ [φ], s => ∀ π, M.IsPath s π → π.Always fun t => ¬ φ.Holds M t
  | mk .possibility _ _ [φ], s => ∃ π, M.IsPath s π ∧ π.Eventually (φ.Holds M)
  | mk .existsPath _ _ [mk .next _ _ [φ]], s =>
    ∃ π, M.IsPath s π ∧ ∃ t, π.at? 1 = some t ∧ φ.Holds M t
  | mk .existsPath _ _ [mk .always _ _ [φ]], s => ∃ π, M.IsPath s π ∧ π.Always (φ.Holds M)
  | mk .existsPath _ _ [mk .eventually _ _ [φ]], s =>
    ∃ π, M.IsPath s π ∧ π.Eventually (φ.Holds M)
  | mk .existsPath _ _ [mk .holdUntil _ _ [mk .before _ _ [φ], mk .reach _ _ [ψ]]], s =>
    ∃ π, M.IsPath s π ∧ π.Until (φ.Holds M) (ψ.Holds M)
  | mk .allPaths _ _ [mk .next _ _ [φ]], s =>
    ∀ π, M.IsPath s π → ∀ t, π.at? 1 = some t → φ.Holds M t
  | mk .allPaths _ _ [mk .always _ _ [φ]], s => ∀ π, M.IsPath s π → π.Always (φ.Holds M)
  | mk .allPaths _ _ [mk .eventually _ _ [φ]], s =>
    ∀ π, M.IsPath s π → π.Eventually (φ.Holds M)
  | mk .allPaths _ _ [mk .holdUntil _ _ [mk .before _ _ [φ], mk .reach _ _ [ψ]]], s =>
    ∀ π, M.IsPath s π → π.Until (φ.Holds M) (ψ.Holds M)
  | mk .deadlock _ _ [], s => M.Dead s
  | mk .alwaysTrue _ _ [], _ => True
  | mk .negation _ _ [φ], s => ¬ φ.Holds M s
  | mk .conjunction _ _ φs, s => HoldAll M φs s
  | mk .disjunction _ _ φs, s => HoldSome M φs s
  | mk .exclusiveDisjunction _ _ [φ, ψ], s => Xor (φ.Holds M s) (ψ.Holds M s)
  | mk .implication _ _ [φ, ψ], s => φ.Holds M s → ψ.Holds M s
  | mk .equivalence _ _ [φ, ψ], s => φ.Holds M s ↔ ψ.Holds M s
  | mk .integerEq _ _ [a, b], s => a.value (M.tokens s) = b.value (M.tokens s)
  | mk .integerNe _ _ [a, b], s => a.value (M.tokens s) ≠ b.value (M.tokens s)
  | mk .integerLt _ _ [a, b], s => a.value (M.tokens s) < b.value (M.tokens s)
  | mk .integerLe _ _ [a, b], s => a.value (M.tokens s) ≤ b.value (M.tokens s)
  | mk .integerGt _ _ [a, b], s => a.value (M.tokens s) > b.value (M.tokens s)
  | mk .integerGe _ _ [a, b], s => a.value (M.tokens s) ≥ b.value (M.tokens s)
  | _, _ => False

/-- Each formula element of a list holds in the state. -/
def HoldAll (M : System.{u}) : List Element → M.State → Prop
  | [], _ => True
  | φ :: φs, s => φ.Holds M s ∧ HoldAll M φs s

/-- Some formula element of a list holds in the state. -/
def HoldSome (M : System.{u}) : List Element → M.State → Prop
  | [], _ => False
  | φ :: φs, s => φ.Holds M s ∨ HoldSome M φs s

end

/-- A list of formulae holds as a whole iff each of them does. -/
theorem holdAll_iff {M : System.{u}} {φs : List Element} {s : M.State} :
    HoldAll M φs s ↔ ∀ φ ∈ φs, φ.Holds M s := by
  induction φs with
  | nil => simp [HoldAll]
  | cons φ φs ih => simp [HoldAll, ih]

/-- One of a list of formulae holds iff there is one that does. -/
theorem holdSome_iff {M : System.{u}} {φs : List Element} {s : M.State} :
    HoldSome M φs s ↔ ∃ φ ∈ φs, φ.Holds M s := by
  induction φs with
  | nil => simp [HoldSome]
  | cons φ φs ih => simp [HoldSome, ih]

end PetriQuery.Document.Element
