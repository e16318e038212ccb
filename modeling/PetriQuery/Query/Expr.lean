import PetriQuery.Query.Names

/-!
# Integer expressions

Terms over the token counts of a Petri net: constants, the count of a place, and sums, products and
differences of any number of operands in a fixed order. A difference is its first operand minus all
the others.

`render` writes a term with its operands in parentheses, `places` is the ordered set of the places
that a term mentions.
-/

set_option autoImplicit false

namespace PetriQuery.Query

/-- What a chain of operands is combined by. -/
inductive Operator where
  | sum
  | product
  | difference
deriving DecidableEq, Repr

/-- What stands between two operands. -/
def Operator.symbol : Operator → Char
  | .sum => '+'
  | .product => '*'
  | .difference => '-'

/-- Integer expressions over the marking of a net. -/
inductive Expr where
  /-- A constant. -/
  | literal (value : Int32)
  /-- The number of tokens in a place. -/
  | place (name : String)
  /-- Operands combined by one operator. -/
  | chain (op : Operator) (operands : List Expr)
deriving Repr

namespace Expr

/-! ## Equality -/

mutual

/-- Equality of expressions is decided along their structure, operand lists by `decEqList`. -/
def decEq : (a b : Expr) → Decidable (a = b)
  | .literal m, .literal n =>
    if h : m = n then .isTrue (by rw [h]) else .isFalse (by simp [h])
  | .place p, .place q =>
    if h : p = q then .isTrue (by rw [h]) else .isFalse (by simp [h])
  | .chain f as, .chain g bs =>
    if sameOp : f = g then
      match decEqList as bs with
      | .isTrue h => .isTrue (by rw [sameOp, h])
      | .isFalse h => .isFalse (by simp [h])
    else .isFalse (by simp [sameOp])
  | .literal _, .place _ | .literal _, .chain _ _ | .place _, .literal _
  | .place _, .chain _ _ | .chain _ _, .literal _ | .chain _ _, .place _ => .isFalse (by simp)

/-- Equality of operand lists. -/
def decEqList : (as bs : List Expr) → Decidable (as = bs)
  | [], [] => .isTrue rfl
  | [], _ :: _ | _ :: _, [] => .isFalse (by simp)
  | a :: as, b :: bs =>
    match decEq a b with
    | .isTrue head =>
      match decEqList as bs with
      | .isTrue tail => .isTrue (by rw [head, tail])
      | .isFalse tail => .isFalse (by simp [tail])
    | .isFalse head => .isFalse (by simp [head])

end

instance : DecidableEq Expr := decEq

/-! ## Text -/

mutual

/-- The characters of an expression's text. -/
def chars : Expr → List Char
  | .literal value => (toString value.toInt).toList
  | .place name => name.toList
  | .chain _ [] => ['(', ')']
  | .chain op (first :: rest) => '(' :: first.chars ++ operandChars op rest

/-- The operands of a chain after its first one, each behind the operator, and the closing
parenthesis. -/
def operandChars (op : Operator) : List Expr → List Char
  | [] => [')']
  | operand :: rest => ' ' :: op.symbol :: ' ' :: operand.chars ++ operandChars op rest

end

/-- The text of an expression. -/
def render (e : Expr) : String := String.ofList e.chars

instance : ToString Expr := ⟨render⟩

/-! ## Places -/

mutual

/-- The places that an expression mentions, in order and as often as it does. -/
def mentions : Expr → List String
  | .literal _ => []
  | .place name => [name]
  | .chain _ operands => mentionsList operands

/-- The places that a list of operands mentions. -/
def mentionsList : List Expr → List String
  | [] => []
  | operand :: rest => operand.mentions ++ mentionsList rest

end

/-- The set of the places that an expression mentions. -/
def places (e : Expr) : List String := Names.ordered e.mentions

/-- A place is mentioned by a list of operands iff one of them mentions it. -/
theorem mem_mentionsList {name : String} {operands : List Expr} :
    name ∈ mentionsList operands ↔ ∃ e ∈ operands, name ∈ e.mentions := by
  induction operands with
  | nil => simp [mentionsList]
  | cons operand rest ih => simp [mentionsList, ih]

/-- A place belongs to the set of places iff it is mentioned. -/
theorem mem_places {name : String} {e : Expr} : name ∈ e.places ↔ name ∈ e.mentions :=
  Names.mem_ordered

end Expr

end PetriQuery.Query
