import PetriQuery.Proofs.Session

/-!
# A selection is a mask

The properties of a set are read independently of each other. What a session makes of a set is made
of what it makes of each property by itself, as a set of one: the items of the selected properties
stand at their places, the others are placeholders, and the first selected property that is refused
refuses the set.

Main facts: when a set is read and when it is refused (`answer_eq_ok_iff`, `answer_eq_error_iff`),
that sets which agree on what is selected have the same answer (`answer_eq_of_agree`), and all of it
together (`selection_is_mask`).
-/

set_option autoImplicit false

namespace PetriQuery.Session

open Document (Element)
open Grammar (HasItem Item Selected hasItem_of_not_selected hasItem_of_selected property propertySet
  propertySet_eq_error_iff_of_set propertySet_eq_ok_iff)
open Traced (ending result_ending_eq_error_iff result_ending_eq_ok_iff)

/-- What a session of its own holds after it has read the tree, or why it refuses the tree. -/
def answer (selection : List Nat) (limit : Nat) (root : Element) : Except Failure (List Item) :=
  let called := (start ⟨selection, limit⟩).addTree root
  called.2.result.map fun _ => called.1.items

/-- The set of a single property. -/
def alone (child : Element) : Element := .mk .propertySet "" .empty [child]

variable {selection selection' : List Nat} {limit : Nat} {root root' child : Element}
  {items : List Item} {failure : Failure}

/-- A session of its own holds the items of the tree that it has read. -/
theorem answer_eq (selection : List Nat) (limit : Nat) (root : Element) :
    answer selection limit root = (propertySet ⟨selection, limit⟩ root).result := by
  rw [answer, addTree_eq]
  change (propertySet ⟨selection, limit⟩ root).ending.result.map
    (fun _ =>
      ((start ⟨selection, limit⟩).append (propertySet ⟨selection, limit⟩ root).result).items)
      = _
  cases read : (propertySet ⟨selection, limit⟩ root).result with
  | ok items =>
    have ends := result_ending_eq_ok_iff.2 ⟨items, read⟩
    rw [ends]
    rfl
  | error failure =>
    have ends := result_ending_eq_error_iff.2 read
    rw [ends]
    rfl

/-! ## One set -/

/-- A set is read iff each of its children has an item, which stands at the place of the child. -/
theorem answer_eq_ok_iff (set : root.tag = .propertySet) :
    answer selection limit root = .ok items
      ↔ items.length = root.children.length
        ∧ ∀ index child item, root.children[index]? = some child → items[index]? = some item →
          HasItem ⟨selection, limit⟩ index child item := by
  rw [answer_eq, propertySet_eq_ok_iff, and_iff_right set]

/-- A set is refused for the first of its selected children that is refused. -/
theorem answer_eq_error_iff (set : root.tag = .propertySet) :
    answer selection limit root = .error failure
      ↔ ∃ (index : Nat) (child : Element) (inner : Failure), root.children[index]? = some child
        ∧ Selected selection index ∧ (property limit child).result = .error inner
        ∧ inner.within (.property index) = failure
        ∧ ∀ earlier < index, ∀ child', root.children[earlier]? = some child' →
          Selected selection earlier → ∃ item, (property limit child').result = .ok item := by
  rw [answer_eq, propertySet_eq_error_iff_of_set set]

/-- A property by itself is read to its item. -/
theorem answer_alone_eq_ok_iff :
    answer [] limit (alone child) = .ok items
      ↔ ∃ item, (property limit child).result = .ok item ∧ items = [item] := by
  have all (index : Nat) : Selected [] index := Or.inl rfl
  rw [answer_eq_ok_iff (by rfl)]
  constructor
  · rintro ⟨length, each⟩
    obtain ⟨item, rfl⟩ := List.length_eq_one_iff.1 length
    exact ⟨item, (hasItem_of_selected (all 0)).1 (each 0 child item rfl rfl), rfl⟩
  · rintro ⟨item, read, rfl⟩
    refine ⟨rfl, ?_⟩
    intro index child' item' member member'
    cases index with
    | zero =>
      obtain rfl : child = child' := Option.some.inj member
      obtain rfl : item = item' := Option.some.inj member'
      exact (hasItem_of_selected (all 0)).2 read
    | succ index => cases member

/-- A property by itself is refused as it is, at the index zero. -/
theorem answer_alone_eq_error_iff :
    answer [] limit (alone child) = .error failure
      ↔ ∃ inner, (property limit child).result = .error inner
        ∧ inner.within (.property 0) = failure := by
  rw [answer_eq_error_iff (by rfl)]
  constructor
  · rintro ⟨index, child', inner, member, -, refused, same, -⟩
    cases index with
    | zero =>
      obtain rfl : child = child' := Option.some.inj member
      exact ⟨inner, refused, same⟩
    | succ index => cases member
  · rintro ⟨inner, refused, same⟩
    refine ⟨0, child, inner, rfl, Or.inl rfl, refused, same, ?_⟩
    intro earlier less
    exact absurd less (Nat.not_lt_zero earlier)

/-! ## Two sets -/

/-- Sets and selections agree at an index: it is selected in both or in neither, and if it is, the
same child stands there. -/
def AgreeAt (selection selection' : List Nat) (root root' : Element) (index : Nat) : Prop :=
  (Selected selection' index ↔ Selected selection index)
    ∧ (Selected selection index → root'.children[index]? = root.children[index]?)

/-- A set is refused as a set is with which it agrees up to the child for which that is refused. -/
theorem answer_eq_error_of_agree {index : Nat} {contexts : List Context} {cause : Cause}
    (set : root.tag = .propertySet) (set' : root'.tag = .propertySet)
    (agree : ∀ i ≤ index, i < root.children.length → AgreeAt selection selection' root root' i)
    (refused : answer selection limit root = .error ⟨.property index :: contexts, cause⟩) :
    answer selection' limit root' = .error ⟨.property index :: contexts, cause⟩ := by
  obtain ⟨index', child, inner, member, selected, failed, same, before⟩ :=
    (answer_eq_error_iff set).1 refused
  -- The failure says the index of the child, so it is the child up to which the sets agree.
  obtain rfl : index' = index := by
    have contexts := congrArg Failure.contexts same
    exact Context.property.inj (List.cons.inj contexts).1
  have within : index' < root.children.length := (List.getElem?_eq_some_iff.1 member).1
  apply (answer_eq_error_iff set').2
  obtain ⟨select, children⟩ := agree index' (Nat.le_refl index') within
  refine ⟨index', child, inner, (children selected).trans member, select.2 selected, failed, same,
    ?_⟩
  intro earlier less child' member' selected'
  obtain ⟨select, children⟩ := agree earlier (Nat.le_of_lt less) (Nat.lt_trans less within)
  have selected'' := select.1 selected'
  exact before earlier less child' ((children selected'').symm.trans member') selected''

/-- A set is read as a set is that has as many children and agrees with it. -/
theorem answer_eq_ok_of_agree (set : root.tag = .propertySet) (set' : root'.tag = .propertySet)
    (length : root'.children.length = root.children.length)
    (agree : ∀ i < root.children.length, AgreeAt selection selection' root root' i)
    (read : answer selection limit root = .ok items) :
    answer selection' limit root' = .ok items := by
  obtain ⟨count, each⟩ := (answer_eq_ok_iff set).1 read
  apply (answer_eq_ok_iff set').2
  refine ⟨count.trans length.symm, ?_⟩
  intro index child' item member' at'
  have within : index < root.children.length := by
    rw [← length]
    exact (List.getElem?_eq_some_iff.1 member').1
  obtain ⟨select, children⟩ := agree index within
  have has := each index root.children[index] item (List.getElem?_eq_getElem within) at'
  by_cases selected : Selected selection index
  · have same : root.children[index] = child' := by
      rw [children selected, List.getElem?_eq_getElem within] at member'
      exact Option.some.inj member'
    rw [same] at has
    exact (hasItem_of_selected (select.2 selected)).2 ((hasItem_of_selected selected).1 has)
  · have left : ¬ Selected selection' index := fun selected' => selected (select.1 selected')
    exact (hasItem_of_not_selected left).2 ((hasItem_of_not_selected selected).1 has)

/-- Every failure of a set says an index. -/
theorem exists_context_of_answer (set : root.tag = .propertySet)
    (refused : answer selection limit root = .error failure) :
    ∃ index contexts cause, failure = ⟨.property index :: contexts, cause⟩ := by
  obtain ⟨index, -, inner, -, -, -, same, -⟩ := (answer_eq_error_iff set).1 refused
  exact ⟨index, inner.contexts, inner.cause, same.symm⟩

/-- Sets with the same number of children that agree have the same answer. -/
theorem answer_eq_of_agree (set : root.tag = .propertySet) (set' : root'.tag = .propertySet)
    (length : root'.children.length = root.children.length)
    (agree : ∀ i < root.children.length, AgreeAt selection selection' root root' i) :
    answer selection' limit root' = answer selection limit root := by
  symm
  apply result_eq_of_imp
  · intro items read
    exact answer_eq_ok_of_agree set set' length agree read
  · intro failure refused
    obtain ⟨index, contexts, cause, rfl⟩ := exists_context_of_answer set refused
    exact answer_eq_error_of_agree set set' (fun i _ within => agree i within) refused

/-- Selections of which both or neither is empty and that have the same indices of children agree on
what is selected of a set. -/
theorem agreeAt_of_mem_iff (root : Element) {index : Nat} (empty : selection' = [] ↔ selection = [])
    (same : index ∈ selection' ↔ index ∈ selection) :
    AgreeAt selection selection' root root index :=
  ⟨or_congr empty same, fun _ => rfl⟩

/-! ## Masks -/

/-- A set is read iff each selected property is read by itself. -/
theorem exists_answer_iff (set : root.tag = .propertySet) :
    (∃ items, answer selection limit root = .ok items)
      ↔ ∀ (index : Nat) (child : Element), root.children[index]? = some child →
        Selected selection index → ∃ items, answer [] limit (alone child) = .ok items := by
  constructor
  · rintro ⟨items, read⟩ index child member selected
    obtain ⟨count, each⟩ := (answer_eq_ok_iff set).1 read
    have within : index < items.length := by
      rw [count]
      exact (List.getElem?_eq_some_iff.1 member).1
    have has := each index child items[index] member (List.getElem?_eq_getElem within)
    exact ⟨_, answer_alone_eq_ok_iff.2 ⟨_, (hasItem_of_selected selected).1 has, rfl⟩⟩
  · intro each
    cases answered : answer selection limit root with
    | ok items => exact ⟨items, rfl⟩
    | error failure =>
      -- The child for which the set would be refused is refused by itself too.
      obtain ⟨index, child, inner, member, selected, refused, -⟩ :=
        (answer_eq_error_iff set).1 answered
      obtain ⟨items, read⟩ := each index child member selected
      obtain ⟨item, ok, -⟩ := answer_alone_eq_ok_iff.1 read
      rw [refused] at ok
      cases ok

/-- The item at the place of a child is the one that its property has by itself, or the one of a
property that was left out. -/
theorem item_of_answer (set : root.tag = .propertySet)
    (read : answer selection limit root = .ok items) {index : Nat}
    (member : root.children[index]? = some child) :
    (Selected selection index →
        ∃ item, answer [] limit (alone child) = .ok [item] ∧ items[index]? = some item)
      ∧ (¬ Selected selection index → items[index]? = some ⟨"", none, .ok⟩) := by
  obtain ⟨count, each⟩ := (answer_eq_ok_iff set).1 read
  have within : index < items.length := by
    rw [count]
    exact (List.getElem?_eq_some_iff.1 member).1
  have at' : items[index]? = some items[index] := List.getElem?_eq_getElem within
  have has := each index child items[index] member at'
  constructor
  · intro selected
    have ok := (hasItem_of_selected selected).1 has
    exact ⟨items[index], answer_alone_eq_ok_iff.2 ⟨_, ok, rfl⟩, at'⟩
  · intro left
    have skipped := (hasItem_of_not_selected left).1 has
    rw [at', skipped]
    rfl

/-- A set is refused iff a selected property is refused by itself and all selected ones before it
are read. The failure is the one of that property, at its index in the set. -/
theorem refused_iff (set : root.tag = .propertySet) :
    answer selection limit root = .error failure
      ↔ ∃ (index : Nat) (child : Element) (contexts : List Context) (cause : Cause),
        root.children[index]? = some child ∧ Selected selection index
        ∧ answer [] limit (alone child) = .error ⟨.property 0 :: contexts, cause⟩
        ∧ failure = ⟨.property index :: contexts, cause⟩
        ∧ ∀ earlier < index, ∀ child', root.children[earlier]? = some child' →
          Selected selection earlier → ∃ items, answer [] limit (alone child') = .ok items := by
  rw [answer_eq_error_iff set]
  constructor
  · rintro ⟨index, child, inner, member, selected, refused, same, before⟩
    refine ⟨index, child, inner.contexts, inner.cause, member, selected, ?_, same.symm, ?_⟩
    · exact answer_alone_eq_error_iff.2 ⟨inner, refused, rfl⟩
    · intro earlier less child' member' selected'
      obtain ⟨item, read⟩ := before earlier less child' member' selected'
      exact ⟨[item], answer_alone_eq_ok_iff.2 ⟨item, read, rfl⟩⟩
  · rintro ⟨index, child, contexts, cause, member, selected, refused, rfl, before⟩
    obtain ⟨inner, refused, same⟩ := answer_alone_eq_error_iff.1 refused
    obtain rfl : inner = ⟨contexts, cause⟩ := by
      injection same with same cause
      rw [← cause, ← (List.cons.inj same).2]
    refine ⟨index, child, _, member, selected, refused, rfl, ?_⟩
    intro earlier less child' member' selected'
    obtain ⟨items, read⟩ := before earlier less child' member' selected'
    obtain ⟨item, ok, -⟩ := answer_alone_eq_ok_iff.1 read
    exact ⟨item, ok⟩

/-- A set that is read as a whole is read under every selection, with the placeholder at each place
that is not selected. -/
theorem answer_of_answer_all (set : root.tag = .propertySet)
    (read : answer [] limit root = .ok items) :
    answer selection limit root
      = .ok (items.mapIdx fun index item =>
          if Selected selection index then item else ⟨"", none, .ok⟩) := by
  obtain ⟨count, each⟩ := (answer_eq_ok_iff set).1 read
  apply (answer_eq_ok_iff set).2
  refine ⟨by rw [List.length_mapIdx, count], ?_⟩
  intro index child item member masked
  rw [List.getElem?_mapIdx, Option.map_eq_some_iff] at masked
  obtain ⟨item', at', rfl⟩ := masked
  have has := each index child item' member at'
  by_cases selected : Selected selection index
  · rw [if_pos selected]
    exact (hasItem_of_selected selected).2 ((hasItem_of_selected (Or.inl rfl)).1 has)
  · rw [if_neg selected]
    exact (hasItem_of_not_selected selected).2 rfl

/-- **A selection is a mask, and properties are read independently of each other.** A set is read
under a selection iff each selected property is read by itself; there is an item for each child, at
the place of the child the item that it has by itself, if it is selected, and otherwise the
placeholder. Indices past the last child count only in that the selection is not empty. A set that
is refused is refused for the first selected property that is refused by itself, with its failure at
its index. A set which agrees up to that one on what is selected is refused alike, whatever else is
in it, and sets of the same length which agree on all that is selected have the same answer. What
a selection leaves of a set that is read as a whole are its items under a mask. -/
theorem selection_is_mask (selection : List Nat) (limit : Nat) (root : Element)
    (set : root.tag = .propertySet) :
    ((∃ items, answer selection limit root = .ok items)
        ↔ ∀ (index : Nat) (child : Element), root.children[index]? = some child →
          Selected selection index → ∃ items, answer [] limit (alone child) = .ok items)
      ∧ (∀ items, answer selection limit root = .ok items →
          items.length = root.children.length
          ∧ ∀ (index : Nat) (child : Element), root.children[index]? = some child →
            (Selected selection index →
              ∃ item, answer [] limit (alone child) = .ok [item] ∧ items[index]? = some item)
            ∧ (¬ Selected selection index → items[index]? = some ⟨"", none, .ok⟩))
      ∧ (∀ selection', (selection' = [] ↔ selection = []) →
          (∀ index < root.children.length, index ∈ selection' ↔ index ∈ selection) →
          answer selection' limit root = answer selection limit root)
      ∧ (∀ failure, answer selection limit root = .error failure
          ↔ ∃ (index : Nat) (child : Element) (contexts : List Context) (cause : Cause),
            root.children[index]? = some child ∧ Selected selection index
            ∧ answer [] limit (alone child) = .error ⟨.property 0 :: contexts, cause⟩
            ∧ failure = ⟨.property index :: contexts, cause⟩
            ∧ ∀ earlier < index, ∀ child', root.children[earlier]? = some child' →
              Selected selection earlier → ∃ items, answer [] limit (alone child') = .ok items)
      ∧ (∀ root', root'.tag = .propertySet →
          (∀ index contexts cause,
            answer selection limit root = .error ⟨.property index :: contexts, cause⟩ →
            (∀ i ≤ index, Selected selection i → root'.children[i]? = root.children[i]?) →
            answer selection limit root' = .error ⟨.property index :: contexts, cause⟩)
          ∧ (root'.children.length = root.children.length →
            (∀ i, Selected selection i → root'.children[i]? = root.children[i]?) →
            answer selection limit root' = answer selection limit root))
      ∧ ∀ items, answer [] limit root = .ok items →
        answer selection limit root
          = .ok (items.mapIdx fun index item =>
              if Selected selection index then item else ⟨"", none, .ok⟩) := by
  refine ⟨exists_answer_iff set, ?_, ?_, fun _ => refused_iff set, ?_, ?_⟩
  · intro items read
    refine ⟨((answer_eq_ok_iff set).1 read).1, ?_⟩
    intro index child member
    exact item_of_answer set read member
  · intro selection' empty same
    apply answer_eq_of_agree set set rfl
    intro index within
    exact agreeAt_of_mem_iff root empty (same index within)
  · intro root' set'
    constructor
    · intro index contexts cause refused children
      apply answer_eq_error_of_agree set set' _ refused
      intro i le _
      exact ⟨Iff.rfl, children i le⟩
    · intro length children
      apply answer_eq_of_agree set set' length
      intro i _
      exact ⟨Iff.rfl, children i⟩
  · intro items read
    exact answer_of_answer_all set read

/-- A set of an element that is no property, a property that can be read and one that cannot. -/
def mixed : Element :=
  .mk .propertySet "" .empty
    [.mk (.other "query") "" .empty [], sampleProperty "q1" (.mk .alwaysTrue "" .empty []),
      sampleProperty "q2" (.mk .integerLt "" .empty [])]

theorem selection_is_mask_of_mixed :
    mixed.tag = .propertySet
      ∧ answer [1] 256 mixed = answer [1, 7] 256 mixed
      ∧ answer [1, 7] 256 mixed
        = .ok [⟨"", none, .ok⟩, ⟨"q1", some (.truth true), .ok⟩, ⟨"", none, .ok⟩]
      ∧ answer [1, 2] 256 mixed
        = .error ⟨[.property 2, .formula "q2"],
            .grammar (.wrongArity "integer-lt" (.exactly 2) 0)⟩ := by
  refine ⟨rfl, ?_, by rfl, ?_⟩
  · exact (selection_is_mask [1, 7] 256 mixed rfl).2.2.1 [1] (by decide) (by decide)
  · apply ((selection_is_mask [1, 2] 256 mixed rfl).2.2.2.1 _).2
    refine ⟨2, _, [.formula "q2"], _, rfl, by decide, rfl, rfl, ?_⟩
    intro earlier less child member selected
    match earlier, selected with
    | 0, selected => exact absurd selected (by decide)
    | 1, _ =>
      obtain rfl := Option.some.inj member
      exact ⟨_, rfl⟩
    | earlier + 2, _ => exact absurd less (Nat.not_lt.2 (Nat.le_add_left 2 earlier))

end PetriQuery.Session
