import PetriQuery.Document.Element
import PetriQuery.Grammar.Fault
import PetriQuery.Trace

/-!
# Children of the right number

Taking the children of an element apart. Each function here returns the children in the form in
which they are used, or refuses the element for the number of its children.

Main facts: each of them succeeds iff the number of children is admitted (`isOk_onlyChild`,
`isOk_twoChildren`, `isOk_noChildren`, `isOk_someChildren`, `isOk_operands`).
-/

set_option autoImplicit false

namespace PetriQuery.Grammar

open Document (Element)

/-- Refuses an element for the number of its children. -/
def refuseArity {α : Type} (expected : Arity) (e : Element) : Traced Fault α :=
  let found := e.children.length
  Traced.refuse s!"'{e.tag}' requires {expected} children, found {found}"
    (.wrongArity e.name expected found)

/-- Refuses an element that cannot stand where it does. -/
def unexpected {α : Type} (e : Element) (context : Construct) : Traced Fault α :=
  Traced.refuse s!"unknown or unexpected tag '{e.tag}' in {context}"
    (.unexpectedTag e.name context)

/-- The child of an element that has one. -/
def onlyChild (e : Element) : Traced Fault Element :=
  match e.children with
  | [child] => return child
  | _ => refuseArity (.exactly 1) e

/-- The children of an element that has two. -/
def twoChildren (e : Element) : Traced Fault (Element × Element) :=
  match e.children with
  | [first, second] => return (first, second)
  | _ => refuseArity (.exactly 2) e

/-- Nothing, for an element without children. -/
def noChildren (e : Element) : Traced Fault Unit :=
  match e.children with
  | [] => return ()
  | _ => refuseArity (.exactly 0) e

/-- The children of an element that has `count` or more. -/
def someChildren (count : Nat) (e : Element) : Traced Fault (List Element) :=
  if count ≤ e.children.length then return e.children else refuseArity (.atLeast count) e

/-- The first child and the others, for an element that has two or more. -/
def operands (e : Element) : Traced Fault (Element × List Element) :=
  match e.children with
  | first :: second :: rest => return (first, second :: rest)
  | _ => refuseArity (.atLeast 2) e

/-- The only child is there iff exactly one is. -/
theorem isOk_onlyChild (e : Element) :
    (onlyChild e).result.isOk = (Arity.exactly 1).admits e.children.length := by
  unfold onlyChild
  rcases e.children with _ | ⟨a, _ | ⟨b, rest⟩⟩ <;> simp [refuseArity, Traced.refuse, Arity.admits,
    Except.isOk, Except.toBool]

/-- Two children are there iff exactly two are. -/
theorem isOk_twoChildren (e : Element) :
    (twoChildren e).result.isOk = (Arity.exactly 2).admits e.children.length := by
  unfold twoChildren
  rcases e.children with _ | ⟨a, _ | ⟨b, _ | ⟨c, rest⟩⟩⟩ <;> simp [refuseArity, Traced.refuse,
    Arity.admits, Except.isOk, Except.toBool]

/-- No children are found iff none is there. -/
theorem isOk_noChildren (e : Element) :
    (noChildren e).result.isOk = (Arity.exactly 0).admits e.children.length := by
  unfold noChildren
  rcases e.children with _ | ⟨a, rest⟩ <;> simp [refuseArity, Traced.refuse, Arity.admits,
    Except.isOk, Except.toBool]

/-- Enough children are found iff they are there. -/
theorem isOk_someChildren (count : Nat) (e : Element) :
    (someChildren count e).result.isOk = (Arity.atLeast count).admits e.children.length := by
  unfold someChildren
  split <;> simp_all [refuseArity, Traced.refuse, Arity.admits, Except.isOk, Except.toBool]

/-- Two or more operands are found iff they are there. -/
theorem isOk_operands (e : Element) :
    (operands e).result.isOk = (Arity.atLeast 2).admits e.children.length := by
  unfold operands
  rcases e.children with _ | ⟨a, _ | ⟨b, rest⟩⟩ <;> simp [refuseArity, Traced.refuse, Arity.admits,
    Except.isOk, Except.toBool]

end PetriQuery.Grammar
