import PetriQuery.Proofs.Grammar.Children
import PetriQuery.Proofs.Refusal

/-!
# Evidence of faults

What a fault says of the tree in which it was found: that there is an element of that name with that
many children, a child of a kind that cannot stand below its parent, a chain of operators longer
than the limit, and so on. The tables here are those of the grammar, kind by kind: how many children
an element has to have (`arityOf`), what its children are to be (`wanted`), and which elements use
no level of nesting (`passes`).

The evidence of a fault below an element is evidence of it in the element (`Evidence.of_below`).
-/

set_option autoImplicit false

namespace PetriQuery.Grammar

open Document (Element Tag)

/-- The first element is the second one or stands somewhere inside of it. -/
inductive Inside (x : Element) : Element → Prop
  | self : Inside x x
  | child {c e : Element} : c ∈ e.children → Inside x c → Inside x e

/-- What stands in an element that stands in another one stands in that one. -/
theorem Inside.trans {x y e : Element} (h : Inside x y) (h' : Inside y e) : Inside x e := by
  induction h' with
  | self => exact h
  | child member _ ih => exact .child member ih

/-- A child stands in its parent. -/
theorem inside_of_mem {x e : Element} (h : x ∈ e.children) : Inside x e := .child h .self

/-! ## The grammar, kind by kind -/

/-- How many children an element of a kind has to have. Kinds without an arity are judged by their
text alone, or are no part of a formula. -/
def arityOf : Tag → Option Arity
  | .deadlock | .alwaysTrue | .alwaysFalse => some (.exactly 0)
  | .formula | .kSafe | .control | .watch | .invariant | .impossibility | .possibility | .existsPath
  | .allPaths | .next | .always | .eventually | .before | .reach | .negation => some (.exactly 1)
  | .holdUntil | .exclusiveDisjunction | .implication | .equivalence | .integerEq | .integerNe
  | .integerLt | .integerLe | .integerGt | .integerGe => some (.exactly 2)
  | .conjunction | .disjunction | .integerSum | .integerProduct => some (.atLeast 2)
  | .tokensCount | .integerDifference => some (.atLeast 1)
  | _ => none

/-- The kinds of expressions. -/
def expressionTags : List Tag :=
  [.integerConstant, .tokensCount, .place, .integerSum, .integerProduct, .integerDifference]

/-- The kinds of formulae. -/
def formulaTags : List Tag :=
  [.invariant, .impossibility, .possibility, .existsPath, .allPaths, .deadlock, .alwaysTrue,
    .alwaysFalse, .negation, .conjunction, .disjunction, .exclusiveDisjunction, .implication,
    .equivalence, .integerEq, .integerNe, .integerLt, .integerLe, .integerGt, .integerGe]

/-- What the children of an element of a kind are to be, and the kinds of which they can be then.
What a `formula` element is to hold depends on whether the query is statistical. -/
def wanted (statistical : Bool) : Tag → Option (Construct × List Tag)
  | .formula =>
    if statistical then some (.statisticalFormula, [.eventually, .always])
    else some (.booleanFormula, .kSafe :: .control :: formulaTags)
  | .existsPath | .allPaths => some (.pathFormula, [.next, .always, .eventually, .holdUntil])
  | .tokensCount => some (.tokensCount, [.place])
  | .kSafe | .watch | .integerEq | .integerNe | .integerLt | .integerLe | .integerGt | .integerGe
  | .integerSum | .integerProduct | .integerDifference => some (.integerExpression, expressionTags)
  | .control | .invariant | .impossibility | .possibility | .next | .always | .eventually | .before
  | .reach | .negation | .conjunction | .disjunction | .exclusiveDisjunction | .implication
  | .equivalence => some (.booleanFormula, formulaTags)
  | _ => none

/-- Whether an element of the second kind uses no level right below one of the first kind. -/
def passes (statistical : Bool) : Tag → Tag → Bool
  | .formula, .kSafe | .formula, .control => !statistical
  | .formula, .eventually | .formula, .always => statistical
  | .existsPath, .next | .existsPath, .always | .existsPath, .eventually => true
  | .allPaths, .next | .allPaths, .always | .allPaths, .eventually => true
  | .negation, .invariant | .negation, .impossibility | .negation, .possibility => true
  | _, _ => false

/-! ## Levels -/

/-- The first element is a formula or an expression one level below the second one. -/
inductive Below (statistical : Bool) (x e : Element) : Prop
  | operand {construct : Construct} {kinds : List Tag} :
      wanted statistical e.tag = some (construct, kinds) →
      construct = .booleanFormula ∨ construct = .integerExpression → x ∈ e.children →
      passes statistical e.tag x.tag = false → Below statistical x e
  | passed {y : Element} :
      y ∈ e.children → passes statistical e.tag y.tag = true → x ∈ y.children →
      Below statistical x e
  | holdUntil {y z : Element} :
      e.tag = .existsPath ∨ e.tag = .allPaths → y ∈ e.children → y.tag = .holdUntil →
      z ∈ y.children → z.tag = .before ∨ z.tag = .reach → x ∈ z.children → Below statistical x e

/-- At least that many levels are below the element. -/
inductive Nests (statistical : Bool) : Nat → Element → Prop
  | zero {e : Element} : Nests statistical 0 e
  | succ {levels : Nat} {x e : Element} :
      Below statistical x e → Nests statistical levels x → Nests statistical (levels + 1) e

/-- What is one level below an element stands in it. -/
theorem Below.inside {statistical : Bool} {x e : Element} (h : Below statistical x e) :
    Inside x e := by
  cases h with
  | operand _ _ member _ => exact inside_of_mem member
  | passed member _ member' => exact (inside_of_mem member').trans (inside_of_mem member)
  | holdUntil _ member _ member' _ member'' =>
    exact (inside_of_mem member'').trans ((inside_of_mem member').trans (inside_of_mem member))

/-! ## Evidence -/

/-- What the fault says is true of the element. A fault about nesting says that there are as many
levels below the element as given. -/
inductive Evidence (statistical : Bool) (limit levels : Nat) (e : Element) : Fault → Prop
  | arity {x : Element} {expected : Arity} :
      Inside x e → arityOf x.tag = some expected → expected.admits x.children.length = false →
      Evidence statistical limit levels e (.wrongArity x.name expected x.children.length)
  | kind {x parent : Element} {construct : Construct} {kinds : List Tag} :
      Inside parent e → x ∈ parent.children →
      wanted statistical parent.tag = some (construct, kinds) → x.tag ∉ kinds →
      Evidence statistical limit levels e (.unexpectedTag x.name construct)
  | untilOperands {x first second : Element} :
      Inside x e → x.tag = .holdUntil → x.children = [first, second] →
      ¬(first.tag = .before ∧ second.tag = .reach) →
      Evidence statistical limit levels e (.untilOperands first.name second.name)
  | integer {x : Element} :
      Inside x e → x.tag = .integerConstant → ¬ Numeral.IsInt32 (Text.trimmed x.text.toList) →
      Evidence statistical limit levels e (.invalidInteger (Text.trim x.text))
  | place {x : Element} :
      Inside x e → x.tag = .place → Text.isAllBlank x.text = true →
      Evidence statistical limit levels e .emptyPlace
  | depth : Nests statistical levels e → Evidence statistical limit levels e (.tooDeep limit)

/-- The fault is that the element is of none of the kinds, or there is evidence of it in the
element. -/
def Blamed (statistical : Bool) (limit levels : Nat) (construct : Construct) (kinds : List Tag)
    (x : Element) (fault : Fault) : Prop :=
  (fault = .unexpectedTag x.name construct ∧ x.tag ∉ kinds)
    ∨ Evidence statistical limit levels x fault

section

variable {statistical : Bool} {limit levels : Nat} {fault : Fault}

/-- Evidence one level below an element is evidence in the element. -/
theorem Evidence.of_below {x e : Element} (h : Evidence statistical limit levels x fault)
    (below : Below statistical x e) : Evidence statistical limit (levels + 1) e fault := by
  cases h with
  | arity inside arity wrong => exact .arity (inside.trans below.inside) arity wrong
  | kind inside member wants other => exact .kind (inside.trans below.inside) member wants other
  | untilOperands inside tag children other =>
    exact .untilOperands (inside.trans below.inside) tag children other
  | integer inside tag other => exact .integer (inside.trans below.inside) tag other
  | place inside tag blank => exact .place (inside.trans below.inside) tag blank
  | depth nests => exact .depth (.succ below nests)

/-- What an element is blamed for that is one level below another one is evidence there. -/
theorem Blamed.evidence {construct : Construct} {kinds : List Tag} {x parent e : Element}
    (h : Blamed statistical limit levels construct kinds x fault) (inside : Inside parent e)
    (member : x ∈ parent.children) (wants : wanted statistical parent.tag = some (construct, kinds))
    (below : Below statistical x e) : Evidence statistical limit (levels + 1) e fault := by
  rcases h with ⟨rfl, other⟩ | evidence
  · exact .kind inside member wants other
  · exact evidence.of_below below

end

/-! ## Refusals -/

/-- The element is refused for the number of its children. -/
def Refused (expected : Arity) (e : Element) (fault : Fault) : Prop :=
  expected.admits e.children.length = false
    ∧ fault = .wrongArity e.name expected e.children.length

/-- The element is refused for the number of its children, or because one of them cannot be read. -/
def RefusedAt {α : Type} (read : Reader α) (expected : Arity) (e : Element) (fault : Fault) :
    Prop :=
  Refused expected e fault ∨ ∃ x ∈ e.children, (read x).result = .error fault

/-- There is evidence in an element if one inside of it is refused for the number of its
children. -/
theorem Refused.evidence {statistical : Bool} {limit levels : Nat} {expected : Arity}
    {p e : Element} {fault : Fault} (refused : Refused expected p fault) (inside : Inside p e)
    (arity : arityOf p.tag = some expected) : Evidence statistical limit levels e fault := by
  obtain ⟨wrong, rfl⟩ := refused
  exact .arity inside arity wrong

section

variable {α : Type} {statistical : Bool} {limit left : Nat} {fault : Fault} {read : Reader α}
  {construct : Construct} {kinds : List Tag}
  (blames : ∀ x, (read x).result = .error fault →
    Blamed statistical limit left construct kinds x fault)

include blames

/-- There is evidence in an element if one inside of it is refused whose children are read one level
below. -/
theorem RefusedAt.evidence {expected : Arity} {p e : Element}
    (refused : RefusedAt read expected p fault) (inside : Inside p e)
    (arity : arityOf p.tag = some expected)
    (wants : wanted statistical p.tag = some (construct, kinds))
    (below : ∀ x ∈ p.children, Below statistical x e) :
    Evidence statistical limit (left + 1) e fault := by
  rcases refused with refused | ⟨x, member, failed⟩
  · exact refused.evidence inside arity
  · exact (blames x failed).evidence inside member wants (below x member)

/-- There is evidence in an element that is refused itself, if its children are its operands. -/
theorem RefusedAt.evidence_self {expected : Arity} {e : Element}
    (refused : RefusedAt read expected e fault) (arity : arityOf e.tag = some expected)
    (wants : wanted statistical e.tag = some (construct, kinds))
    (operands : construct = .booleanFormula ∨ construct = .integerExpression)
    (direct : ∀ tag, passes statistical e.tag tag = false) :
    Evidence statistical limit (left + 1) e fault := by
  apply refused.evidence blames .self arity wants
  intro x member
  exact .operand wants operands member (direct x.tag)

/-- There is evidence in an element if a child that uses no level is refused. -/
theorem RefusedAt.evidence_passed {expected : Arity} {y e : Element}
    (refused : RefusedAt read expected y fault) (member : y ∈ e.children)
    (passed : passes statistical e.tag y.tag = true) (arity : arityOf y.tag = some expected)
    (wants : wanted statistical y.tag = some (construct, kinds)) :
    Evidence statistical limit (left + 1) e fault := by
  apply refused.evidence blames (inside_of_mem member) arity wants
  intro x member'
  exact .passed member passed member'

end

end PetriQuery.Grammar
