import PetriQuery.Document.Attributes
import PetriQuery.Document.Tag
import PetriQuery.Text.Blank

/-!
# Elements

The tree of a document. An element has a kind, attributes, its child elements in the order of the
document, and a text: everything written directly inside it, put together.
-/

set_option autoImplicit false

namespace PetriQuery.Document

/-- An element of a document. -/
inductive Element where
  | mk (tag : Tag) (text : String) (attributes : Attributes) (children : List Element)

namespace Element

/-- The kind of an element. -/
def tag : Element → Tag
  | mk tag _ _ _ => tag

/-- What is written directly inside an element. -/
def text : Element → String
  | mk _ text _ _ => text

/-- The attributes of an element. -/
def attributes : Element → Attributes
  | mk _ _ attributes _ => attributes

/-- The child elements of an element. -/
def children : Element → List Element
  | mk _ _ _ children => children

/-- The name of an element. -/
def name (e : Element) : String := e.tag.name

/-- The value of an attribute. -/
def get? (e : Element) (key : String) : Option String := e.attributes.get? key

/-- The place that an element names: its text without any blank. An element that is no `place` names
the empty one. -/
def placeName (e : Element) : String := if e.tag = .place then Text.strip e.text else ""

/-! ## Equality -/

mutual

/-- Equality of elements is decided along their structure, child lists by `decEqList`. -/
def decEq : (a b : Element) → Decidable (a = b)
  | mk tag text attributes children, mk tag' text' attributes' children' =>
    if own : tag = tag' ∧ text = text' ∧ attributes = attributes' then
      match decEqList children children' with
      | .isTrue h => .isTrue (by rw [own.1, own.2.1, own.2.2, h])
      | .isFalse h => .isFalse (by simp [h])
    else .isFalse (by simpa using fun a b c _ => own ⟨a, b, c⟩)

/-- Equality of child lists. -/
def decEqList : (as bs : List Element) → Decidable (as = bs)
  | [], [] => .isTrue rfl
  | [], _ :: _ | _ :: _, [] => .isFalse (by simp)
  | a :: as, b :: bs =>
    match decEq a b with
    | .isTrue head =>
      match decEqList as bs with
      | .isTrue tail => .isTrue (by rw [head, tail])
      | .isFalse tail => .isFalse (by simp [tail])
    | .isFalse head => .isFalse (by simp [head])

end

instance : DecidableEq Element := decEq

/-! ## Order of the document -/

mutual

/-- The elements of a tree with their depths, an element before those inside it. -/
def preorder (depth : Nat) : Element → List (Nat × Element)
  | mk tag text attributes children =>
    (depth, mk tag text attributes children) :: preorderList (depth + 1) children

/-- The elements of the trees in a list with their depths. -/
def preorderList (depth : Nat) : List Element → List (Nat × Element)
  | [] => []
  | child :: rest => child.preorder depth ++ preorderList depth rest

end

end Element

end PetriQuery.Document
