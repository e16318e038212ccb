import PetriQuery.Grammar.Property
import PetriQuery.Proofs.Refusal

/-!
# What is read as a set of properties

A `property-set` element is read iff each of its children has an item, and the item of a child
stands at the place of the child (`propertySet_eq_ok_iff`). A child that is not selected has the
item of a property that was left out, whatever the child is. A set that is not read fails on the
first child without an item, and the failure says the index of that child
(`propertySet_eq_error_iff`).
-/

set_option autoImplicit false

namespace PetriQuery.Grammar

open Document (Element)
open Traced (result_bind_eq_error_iff result_bind_eq_ok_iff result_mapM_eq_error_iff
  result_mapM_eq_ok_iff)

/-- The index is one of those that are read. No index at all stands for all of them. -/
def Selected (selection : List Nat) (index : Nat) : Prop := selection = [] ∨ index ∈ selection

instance (selection : List Nat) (index : Nat) : Decidable (Selected selection index) :=
  inferInstanceAs (Decidable (_ ∨ _))

theorem selects_iff {options : Options} {index : Nat} :
    options.selects index = true ↔ Selected options.selected index := by
  rw [Options.selects, Selected, Bool.or_eq_true, List.isEmpty_iff, List.contains_iff_mem]

/-- The child at an index has the item: the item of the property that the child is, if the index is
selected, and otherwise the one of a property that was left out. -/
def HasItem (options : Options) (index : Nat) (child : Element) (item : Item) : Prop :=
  if options.selects index then (property options.maxDepth child).result = .ok item
  else item = .skipped

/-- The child at an index is read iff it has the item. -/
theorem selectedProperty_eq_ok_iff {options : Options} {child : Element} {index : Nat}
    {item : Item} :
    (selectedProperty options child index).result = .ok item
      ↔ HasItem options index child item := by
  rw [selectedProperty, HasItem]
  split
  · rw [Traced.result_mapError, mapError_eq_ok_iff]
  -- A child that is not selected is not looked at; only a record is written.
  · rw [Traced.result_bind_of_ok _ (by rfl), Traced.result_pure, Except.ok.injEq, eq_comm]

/-- A child that is selected has the item of its property. -/
theorem hasItem_of_selected {selection : List Nat} {limit index : Nat} {child : Element}
    {item : Item} (selected : Selected selection index) :
    HasItem ⟨selection, limit⟩ index child item ↔ (property limit child).result = .ok item := by
  rw [HasItem, if_pos (selects_iff.2 selected)]

/-- A child that is not selected has the item of a property that was left out. -/
theorem hasItem_of_not_selected {selection : List Nat} {limit index : Nat} {child : Element}
    {item : Item} (left : ¬ Selected selection index) :
    HasItem ⟨selection, limit⟩ index child item ↔ item = .skipped := by
  rw [HasItem, if_neg (fun selects => left (selects_iff.1 selects))]

/-- Only a `property-set` element is gone into. -/
theorem enterSet_eq_ok_iff {root : Element} :
    (enterSet root).result = .ok () ↔ root.tag = .propertySet := by
  rw [enterSet]
  split
  · next other => simp [refuseGrammar, other]
  · next same => simp [Traced.note, Decidable.not_not.1 same]

/-- What is related to each entry of a numbered list stands at the number of the entry. -/
theorem forall₂_zipIdx_iff {α β : Type} {R : α × Nat → β → Prop} {as : List α} {bs : List β} :
    List.Forall₂ R as.zipIdx bs
      ↔ bs.length = as.length
        ∧ ∀ index a b, as[index]? = some a → bs[index]? = some b → R (a, index) b := by
  rw [List.forall₂_iff_get]
  refine and_congr ?_ ?_
  · rw [List.length_zipIdx, eq_comm]
  · constructor
    · intro related index a b atA atB
      obtain ⟨inA, rfl⟩ := List.getElem?_eq_some_iff.1 atA
      obtain ⟨inB, rfl⟩ := List.getElem?_eq_some_iff.1 atB
      have inZip : index < as.zipIdx.length := List.length_zipIdx.symm ▸ inA
      have pair := related index inZip inB
      simpa using pair
    · intro related index inZip inB
      have inA : index < as.length := List.length_zipIdx ▸ inZip
      have pair := related index as[index] bs[index] (List.getElem?_eq_getElem inA)
        (List.getElem?_eq_getElem inB)
      simpa using pair

/-- A set of properties is read iff each child has an item, which stands at the place of the
child. -/
theorem propertySet_eq_ok_iff {options : Options} {root : Element} {items : List Item} :
    (propertySet options root).result = .ok items
      ↔ root.tag = .propertySet ∧ items.length = root.children.length
        ∧ ∀ index child item, root.children[index]? = some child → items[index]? = some item →
          HasItem options index child item := by
  simp only [propertySet, result_bind_eq_ok_iff, result_mapM_eq_ok_iff, selectedProperty_eq_ok_iff,
    forall₂_zipIdx_iff]
  constructor
  · rintro ⟨entered, enter, found, each, left, leave, same⟩
    obtain rfl : found = items := Except.ok.inj same
    exact ⟨enterSet_eq_ok_iff.1 enter, each⟩
  · rintro ⟨set, each⟩
    exact ⟨(), enterSet_eq_ok_iff.2 set, items, each, (), rfl, rfl⟩

/-! ## Refusal -/

/-- The child at an index is refused iff the index is selected and the property is refused that the
child is. The failure is the one of the property, at that index. -/
theorem selectedProperty_eq_error_iff {options : Options} {child : Element} {index : Nat}
    {failure : Failure} :
    (selectedProperty options child index).result = .error failure
      ↔ options.selects index = true
        ∧ ∃ inner, (property options.maxDepth child).result = .error inner
          ∧ inner.within (.property index) = failure := by
  rw [selectedProperty]
  split
  · next selected => rw [Traced.result_mapError, mapError_eq_error_iff, and_iff_right selected]
  · next left =>
    rw [Traced.result_bind_of_ok _ (by rfl), Traced.result_pure]
    simp [left]

/-- Everything but a `property-set` element is refused by its name. -/
theorem enterSet_eq_error_iff {root : Element} {failure : Failure} :
    (enterSet root).result = .error failure
      ↔ root.tag ≠ .propertySet ∧ failure = .ofCause (.grammar (.unexpectedRoot root.name)) := by
  rw [enterSet]
  split
  · next other => simp [refuseGrammar, other, eq_comm]
  · next same => simp [Traced.note, Decidable.not_not.1 same]

/-- What stands in a numbered list at an index is what stands there in the list, with the index. -/
theorem getElem?_zipIdx_eq_some_iff {α : Type} {as : List α} {index : Nat} {entry : α × Nat} :
    as.zipIdx[index]? = some entry ↔ as[index]? = some entry.1 ∧ entry.2 = index := by
  obtain ⟨a, number⟩ := entry
  rw [List.getElem?_zipIdx]
  cases as[index]? with
  | none => simp
  | some a' => simp [eq_comm]

/-- A set of properties is refused for its name, or for the first child that has no item. -/
theorem propertySet_eq_error_iff {options : Options} {root : Element} {failure : Failure} :
    (propertySet options root).result = .error failure
      ↔ (root.tag ≠ .propertySet ∧ failure = .ofCause (.grammar (.unexpectedRoot root.name)))
        ∨ (root.tag = .propertySet ∧ ∃ (index : Nat) (child : Element),
          root.children[index]? = some child
          ∧ (selectedProperty options child index).result = .error failure
          ∧ ∀ earlier < index, ∀ child', root.children[earlier]? = some child' →
            ∃ item, HasItem options earlier child' item) := by
  -- Behind the walk over the children nothing can fail any more.
  have last (items : List Item) : ¬ (leaveSet >>= fun _ => pure items).result = .error failure := by
    intro h
    cases h
  simp only [propertySet, result_bind_eq_error_iff, enterSet_eq_error_iff, result_mapM_eq_error_iff]
  refine or_congr Iff.rfl ?_
  constructor
  · rintro ⟨_, entered, ⟨index, entry, member, refused, before⟩ | ⟨items, -, h⟩⟩
    · obtain ⟨member, same⟩ := getElem?_zipIdx_eq_some_iff.1 member
      refine ⟨enterSet_eq_ok_iff.1 entered, index, entry.1, member, same ▸ refused, ?_⟩
      intro earlier less child' member'
      obtain ⟨item, read⟩ := before earlier less (child', earlier)
        (getElem?_zipIdx_eq_some_iff.2 ⟨member', rfl⟩)
      exact ⟨item, selectedProperty_eq_ok_iff.1 read⟩
    · exact absurd (result_bind_eq_error_iff.2 h) (last items)
  · rintro ⟨set, index, child, member, refused, before⟩
    refine ⟨(), enterSet_eq_ok_iff.2 set, Or.inl ⟨index, (child, index), ?_, refused, ?_⟩⟩
    · exact getElem?_zipIdx_eq_some_iff.2 ⟨member, rfl⟩
    · intro earlier less entry member'
      obtain ⟨member', same⟩ := getElem?_zipIdx_eq_some_iff.1 member'
      obtain ⟨item, has⟩ := before earlier less entry.1 member'
      exact ⟨item, selectedProperty_eq_ok_iff.2 (same ▸ has)⟩

/-- A `property-set` element is refused for the first of its selected children that is refused. -/
theorem propertySet_eq_error_iff_of_set {options : Options} {root : Element} {failure : Failure}
    (set : root.tag = .propertySet) :
    (propertySet options root).result = .error failure
      ↔ ∃ (index : Nat) (child : Element) (inner : Failure), root.children[index]? = some child
        ∧ Selected options.selected index ∧ (property options.maxDepth child).result = .error inner
        ∧ inner.within (.property index) = failure
        ∧ ∀ earlier < index, ∀ child', root.children[earlier]? = some child' →
          Selected options.selected earlier →
          ∃ item, (property options.maxDepth child').result = .ok item := by
  simp only [propertySet_eq_error_iff, set, ne_eq, not_true_eq_false, false_and, false_or, true_and,
    selectedProperty_eq_error_iff, selects_iff]
  constructor
  · rintro ⟨index, child, member, ⟨selected, inner, refused, same⟩, before⟩
    refine ⟨index, child, inner, member, selected, refused, same, ?_⟩
    intro earlier less child' member' selected'
    obtain ⟨item, has⟩ := before earlier less child' member'
    exact ⟨item, (hasItem_of_selected selected').1 has⟩
  · rintro ⟨index, child, inner, member, selected, refused, same, before⟩
    refine ⟨index, child, member, ⟨selected, inner, refused, same⟩, ?_⟩
    intro earlier less child' member'
    by_cases selected' : Selected options.selected earlier
    · obtain ⟨item, read⟩ := before earlier less child' member' selected'
      exact ⟨item, (hasItem_of_selected selected').2 read⟩
    · exact ⟨.skipped, (hasItem_of_not_selected selected').2 rfl⟩

end PetriQuery.Grammar
