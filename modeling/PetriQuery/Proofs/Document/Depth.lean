import PetriQuery.Proofs.Document.Building

/-!
# How deep documents nest

The builder limits how many elements are open when another one is opened. An empty tag opens no
element, so the limit says nothing about it: an element without content may stand one level deeper
than the limit if it is written as an empty tag, and not if it is written as a start tag and an end
tag.

Main facts: the tree of a document nests at most one level deeper than the limit, and it does so iff
an empty tag stands where as many elements are open as the limit admits (`depthList_le_iff`); with
its empty tags written as two tags each, a document is accepted iff it was accepted before and its
tree keeps the limit (`ofEvents_expand_eq_ok_iff`).
-/

set_option autoImplicit false

namespace PetriQuery.Document

open Markup (Event Reading)

/-! ## Depth -/

mutual

/-- How deep elements nest in an element. An element without children has the depth one. -/
def Element.depth : Element → Nat
  | .mk _ _ _ children => Element.depthList children + 1

/-- How deep elements nest in the elements of a list. -/
def Element.depthList : List Element → Nat
  | [] => 0
  | child :: rest => max child.depth (Element.depthList rest)

end

namespace Element

@[simp] theorem depth_ofTag (name : String) (attributes : List (String × String)) (text : String)
    (children : List Element) :
    (Element.ofTag name attributes text children).depth = depthList children + 1 := by
  rw [Element.ofTag, depth]

/-- The element of a tag is one level deeper than what is inside it. -/
theorem IsOf.depth_eq {e : Element} {name : String} {attributes : List (String × String)}
    {text : String} {children : List Element} (h : e.IsOf name attributes text children) :
    e.depth = depthList children + 1 := by
  rw [isOf_iff.1 h, depth_ofTag]

@[simp] theorem depthList_nil : depthList [] = 0 := by
  rw [depthList]

@[simp] theorem depthList_append (es es' : List Element) :
    depthList (es ++ es') = max (depthList es) (depthList es') := by
  induction es with
  | nil => simp
  | cons e es ih => rw [List.cons_append, depthList, depthList, ih, Nat.max_assoc]

@[simp] theorem depthList_singleton (e : Element) : depthList [e] = e.depth := by
  rw [depthList, depthList_nil, Nat.max_zero]

/-- The elements of a list nest no deeper than the list. -/
theorem depth_le_depthList {e : Element} {es : List Element} (member : e ∈ es) :
    e.depth ≤ depthList es := by
  induction es with
  | nil => cases member
  | cons first rest ih =>
    rw [depthList]
    rcases List.mem_cons.1 member with rfl | member
    · exact Nat.le_max_left _ _
    · exact Nat.le_trans (ih member) (Nat.le_max_right _ _)

/-- A child nests less deep than its parent. -/
theorem depth_lt_of_mem {child e : Element} (member : child ∈ e.children) :
    child.depth < e.depth := by
  obtain ⟨tag, text, attributes, children⟩ := e
  rw [depth]
  exact Nat.lt_succ_of_le (depth_le_depthList member)

/-- Every element has a depth. -/
theorem depth_pos (e : Element) : 0 < e.depth := by
  cases e
  rw [depth]
  exact Nat.succ_pos _

end Element

open Element (depthList)

/-! ## Levels and depth -/

/-- No empty tag of a row that starts at a level stands above the levels that the row has. -/
def EmptyWithin (level levels : Nat) (events : List Event) : Prop :=
  ∀ k name attributes, (k, .empty name attributes) ∈ leveled level events → k < level + levels

/-- A content that stands in front of a row does not move the empty tags of the row. -/
theorem SpellsContent.emptyWithin_append_iff {levels level : Nat} {events more : List Event}
    {text : String} {children : List Element} (h : SpellsContent levels events text children) :
    EmptyWithin level levels (events ++ more)
      ↔ EmptyWithin level levels events ∧ EmptyWithin level levels more := by
  simp only [EmptyWithin, leveled_append, h.foldl_levelAfter, List.mem_append]
  constructor
  · intro within
    constructor
    · intro k name attributes member
      exact within k name attributes (Or.inl member)
    · intro k name attributes member
      exact within k name attributes (Or.inr member)
  · rintro ⟨first, second⟩ k name attributes (member | member)
    · exact first k name attributes member
    · exact second k name attributes member

/-- An event that is no empty tag is none above any level. -/
theorem emptyWithin_singleton {level levels : Nat} {event : Event}
    (other : ∀ name attributes, event ≠ .empty name attributes) :
    EmptyWithin level levels [event] := by
  intro k name attributes member
  obtain ⟨-, rfl⟩ := Prod.mk.inj (List.mem_singleton.1 member)
  exact absurd rfl (other name attributes)

/-- An empty tag alone stands at the level of its row. -/
theorem emptyWithin_empty_iff {level levels : Nat} (name : String)
    (attributes : List (String × String)) :
    EmptyWithin level levels [.empty name attributes] ↔ 0 < levels := by
  constructor
  · intro within
    have below := within level name attributes List.mem_cons_self
    omega
  · intro pos k name' attributes' member
    obtain ⟨rfl, -⟩ := Prod.mk.inj (List.mem_singleton.1 member)
    omega

/-- The empty tags between a start tag and its end tag stand one level higher. -/
theorem SpellsContent.emptyWithin_element_iff {levels level : Nat} {inside : List Event}
    {text : String} {children : List Element} (name : String)
    (attributes : List (String × String)) (h : SpellsContent levels inside text children) :
    EmptyWithin level (levels + 1) (.start name attributes :: (inside ++ [.close name]))
      ↔ EmptyWithin (level + 1) levels inside := by
  have reach : level + 1 + levels = level + (levels + 1) := by omega
  simp only [EmptyWithin, leveled, levelAfter, leveled_append, h.foldl_levelAfter, List.mem_cons,
    List.mem_append, reach]
  constructor
  · intro within k name' attributes' member
    exact within k name' attributes' (Or.inr (Or.inl member))
  · rintro within k name' attributes' (same | member | same | none)
    · cases (Prod.mk.inj same).2
    · exact within k name' attributes' member
    · cases (Prod.mk.inj same).2
    · cases none

/-- A content nests elements at most one level deeper than its start tags. -/
theorem SpellsContent.depthList_le {levels : Nat} {events : List Event} {text : String}
    {children : List Element} (h : SpellsContent levels events text children) :
    depthList children ≤ levels + 1 := by
  induction h with
  | nil => simp
  | text _ _ ih | cdata _ _ ih | comment _ ih | declaration _ ih => exact ih
  | empty name attributes own _ ih =>
    simp only [Element.depthList_append, Element.depthList_singleton, own.depth_eq,
      Element.depthList_nil]
    omega
  | element name attributes own _ _ ih ih' =>
    simp only [Element.depthList_append, Element.depthList_singleton, own.depth_eq]
    omega

/-- A content nests elements no deeper than its levels iff no empty tag stands above them. -/
theorem SpellsContent.depthList_le_iff {levels : Nat} {events : List Event} {text : String}
    {children : List Element} (h : SpellsContent levels events text children) (level : Nat) :
    depthList children ≤ levels ↔ EmptyWithin level levels events := by
  induction h generalizing level with
  | nil => simp [EmptyWithin, leveled]
  | text _ h ih | cdata _ h ih | comment h ih | declaration h ih =>
    rw [h.emptyWithin_append_iff, ih level]
    refine (and_iff_left (emptyWithin_singleton ?_)).symm
    intro name attributes same
    cases same
  | empty name attributes own h ih =>
    rw [h.emptyWithin_append_iff, emptyWithin_empty_iff, ← ih level, Element.depthList_append,
      Element.depthList_singleton, own.depth_eq, Element.depthList_nil, Nat.max_le]
    exact Iff.rfl
  | element name attributes own h inside ih ih' =>
    rw [h.emptyWithin_append_iff, inside.emptyWithin_element_iff, ← ih level, ← ih' (level + 1),
      Element.depthList_append, Element.depthList_singleton, own.depth_eq, Nat.max_le,
      Nat.add_le_add_iff_right]

/-- What stands beside the root element is no empty tag. -/
theorem emptyWithin_of_isBeside {events : List Event} (level levels : Nat)
    (beside : ∀ event ∈ events, IsBeside event) : EmptyWithin level levels events := by
  intro k name attributes member
  cases beside _ (mem_of_leveled member)

/-- The tree of a document nests elements no deeper than the limit iff none of its empty tags stands
where as many elements are open as the limit admits. -/
theorem SpellsDocument.depth_le_iff {events : List Event} {root : Element}
    (h : SpellsDocument events root) :
    root.depth ≤ maxNesting ↔ EmptyWithin 0 maxNesting events := by
  obtain ⟨before, one, after, rfl, beside, spells, beside'⟩ := h
  have flat := leveled_of_not_isTag 0 fun event h => isTag_of_isBeside (beside event h)
  rw [← Element.depthList_singleton, spells.content.depthList_le_iff 0]
  simp only [EmptyWithin, leveled_append, List.foldl_append, flat.2,
    spells.content.foldl_levelAfter, List.mem_append]
  constructor
  · rintro within k name attributes ((first | member) | last)
    · exact emptyWithin_of_isBeside 0 maxNesting beside k name attributes first
    · exact within k name attributes member
    · exact emptyWithin_of_isBeside 0 maxNesting beside' k name attributes last
  · intro within k name attributes member
    exact within k name attributes (Or.inl (Or.inr member))

/-! ## Empty tags as two tags -/

/-- The event with an empty tag written as a start tag and an end tag. -/
def expandEvent : Event → List Event
  | .empty name attributes => [.start name attributes, .close name]
  | event => [event]

/-- The row with each empty tag written as a start tag and an end tag. -/
def expand (events : List Event) : List Event := events.flatMap expandEvent

/-- Rows one after the other are expanded one after the other. -/
theorem expand_append (events events' : List Event) :
    expand (events ++ events') = expand events ++ expand events' :=
  List.flatMap_append

/-- A start tag and an end tag are as they were. -/
theorem expand_element (name : String) (attributes : List (String × String))
    (inside : List Event) :
    expand (.start name attributes :: (inside ++ [.close name]))
      = .start name attributes :: (expand inside ++ [.close name]) := by
  rw [expand, List.flatMap_cons, List.flatMap_append]
  rfl

/-- A row without empty tags is as it was. -/
theorem expand_eq_self {events : List Event}
    (none : ∀ event ∈ events, ∀ name attributes, event ≠ .empty name attributes) :
    expand events = events := by
  induction events with
  | nil => rfl
  | cons event events ih =>
    obtain ⟨head, tail⟩ := List.forall_mem_cons.1 none
    have same : expandEvent event = [event] := by
      cases event with
      | empty name attributes => exact absurd rfl (head name attributes)
      | _ => rfl
    rw [expand, List.flatMap_cons, same]
    exact congrArg (event :: ·) (ih tail)

/-- What stands beside the root element is as it was. -/
theorem expand_of_isBeside {events : List Event} (beside : ∀ event ∈ events, IsBeside event) :
    expand events = events := by
  apply expand_eq_self
  rintro event member name attributes rfl
  cases beside _ member

/-- No empty tag is left. -/
theorem not_empty_mem_expand {events : List Event} {name : String}
    {attributes : List (String × String)} : .empty name attributes ∉ expand events := by
  rw [expand, List.mem_flatMap]
  rintro ⟨event, -, member⟩
  cases event <;> simp [expandEvent] at member

/-- A content that keeps its levels with its empty tags too is spelled by the expanded row. -/
theorem SpellsContent.expand {levels : Nat} {events : List Event} {text : String}
    {children : List Element} (h : SpellsContent levels events text children)
    (keeps : depthList children ≤ levels) :
    SpellsContent levels (expand events) text children := by
  induction h with
  | nil => exact .nil
  | text content _ ih =>
    rw [expand_append]
    exact .text content (ih keeps)
  | cdata content _ ih =>
    rw [expand_append]
    exact .cdata content (ih keeps)
  | comment _ ih =>
    rw [expand_append]
    exact .comment (ih keeps)
  | declaration _ ih =>
    rw [expand_append]
    exact .declaration (ih keeps)
  | @empty levels _ _ _ _ name attributes own _ ih =>
    rw [Element.depthList_append, Element.depthList_singleton, own.depth_eq, Element.depthList_nil,
      Nat.max_le] at keeps
    -- The start tag that the empty tag becomes needs a level.
    obtain ⟨below, rfl⟩ : ∃ below, levels = below + 1 := Nat.exists_eq_add_one.2 keeps.2
    rw [expand_append]
    exact .element name attributes own (ih keeps.1) .nil
  | element name attributes own _ _ ih ih' =>
    rw [Element.depthList_append, Element.depthList_singleton, own.depth_eq, Nat.max_le,
      Nat.add_le_add_iff_right] at keeps
    rw [expand_append, expand_element]
    exact .element name attributes own (ih keeps.1) (ih' keeps.2)

/-- A document whose tree keeps the limit is spelled by the expanded row. -/
theorem SpellsDocument.expand {events : List Event} {root : Element}
    (h : SpellsDocument events root) (keeps : root.depth ≤ maxNesting) :
    SpellsDocument (expand events) root := by
  obtain ⟨before, one, after, rfl, beside, spells, beside'⟩ := h
  rw [expand_append, expand_append, expand_of_isBeside beside, expand_of_isBeside beside']
  refine ⟨before, Document.expand one, after, rfl, beside, ?_, beside'⟩
  generalize maxNesting = levels at spells keeps
  cases spells with
  | empty name attributes own =>
    -- The tree has a level, so the limit admits one.
    rw [own.depth_eq] at keeps
    obtain ⟨below, rfl⟩ : ∃ below, levels = below + 1 :=
      Nat.exists_eq_add_one.2 (Nat.lt_of_lt_of_le (Nat.succ_pos _) keeps)
    exact .element name attributes own .nil
  | element name attributes own inside =>
    rw [own.depth_eq, Nat.add_le_add_iff_right] at keeps
    rw [expand_element]
    exact .element name attributes own (inside.expand keeps)

variable {b b' : Builder}

/-- An element is opened where it is no second root and the open elements leave a level. -/
theorem enter_eq_ok_iff {frame : Frame} :
    (b.enter frame).result = .ok b'
      ↔ (b.opened = [] → b.root? = none) ∧ b.opened.length < maxNesting
        ∧ b' = ⟨frame :: b.opened, b.root?⟩ := by
  rw [Builder.enter, Traced.result_bind_of_ok _ (by rfl)]
  split_ifs with second deep
  · simp only [Traced.result_refuse, reduceCtorEq, false_iff]
    rintro ⟨first, -⟩
    simp [List.isEmpty_iff] at second
    simp [first second.1] at second
  · simp only [Traced.result_refuse, reduceCtorEq, false_iff]
    rintro ⟨-, room, -⟩
    exact absurd room (Nat.not_lt.2 deep)
  · simp only [Traced.result_pure, Except.ok.injEq]
    constructor
    · rintro rfl
      refine ⟨?_, Nat.lt_of_not_le deep, rfl⟩
      intro outside
      simpa [outside] using second
    · rintro ⟨-, -, rfl⟩
      rfl

/-- Where an expanded event takes the builder, the event takes it too. -/
theorem step_of_expandEvent {event : Event}
    (run : ((expandEvent event).foldlM Builder.step b).result = .ok b') :
    (b.step event).result = .ok b' := by
  cases event with
  | empty name attributes =>
    rw [expandEvent, List.foldlM_cons, Traced.result_bind_eq_ok_iff] at run
    obtain ⟨between, entered, left⟩ := run
    obtain ⟨-, -, rfl⟩ := enter_eq_ok_iff.1 entered
    rw [result_foldlM_singleton, Builder.step, result_leave_of_name (Tag.name_ofName name)] at left
    rw [Builder.step, Traced.result_bind_of_ok _ (by rfl)]
    exact left
  | _ =>
    rw [expandEvent, result_foldlM_singleton] at run
    · exact run
    · intro name attributes same
      cases same

/-- Where an expanded row takes the builder, the row takes it too. -/
theorem run_of_expand {events : List Event}
    (run : ((expand events).foldlM Builder.step b).result = .ok b') :
    (events.foldlM Builder.step b).result = .ok b' := by
  induction events generalizing b with
  | nil => exact run
  | cons event events ih =>
    rw [expand, List.flatMap_cons, List.foldlM_append, Traced.result_bind_eq_ok_iff] at run
    obtain ⟨between, first, rest⟩ := run
    rw [result_foldlM_cons (step_of_expandEvent first)]
    exact ih rest

/-! ## Readings -/

/-- A reading is accepted iff it ends well and its events are a document. -/
theorem ofEvents_reading_eq_ok_iff {reading : Reading Event} {root : Element} :
    (Element.ofEvents reading).result = .ok root
      ↔ reading.fault? = none ∧ SpellsDocument reading.items root := by
  obtain ⟨events, fault?⟩ := reading
  cases fault? with
  | none => rw [ofEvents_eq_ok_iff, and_iff_right rfl]
  | some fault =>
    simp only [Element.ofEvents, Traced.result_bind_eq_ok_iff, Traced.result_fail, reduceCtorEq,
      and_false, exists_false, false_and]

/-- What is accepted nests elements at most one level deeper than the limit. -/
theorem depth_le_of_ofEvents {reading : Reading Event} {root : Element}
    (accepted : (Element.ofEvents reading).result = .ok root) : root.depth ≤ maxNesting + 1 := by
  obtain ⟨-, before, one, after, -, -, spells, -⟩ := ofEvents_reading_eq_ok_iff.1 accepted
  rw [← Element.depthList_singleton]
  exact spells.content.depthList_le

/-- The reading with each empty tag written as a start tag and an end tag. -/
def expandReading (reading : Reading Event) : Reading Event :=
  ⟨expand reading.items, reading.fault?⟩

/-- With its empty tags written as two tags each, a reading gives a tree iff it gives this tree as
it is and the tree keeps the limit. -/
theorem ofEvents_expand_eq_ok_iff {reading : Reading Event} {root : Element} :
    (Element.ofEvents (expandReading reading)).result = .ok root
      ↔ (Element.ofEvents reading).result = .ok root ∧ root.depth ≤ maxNesting := by
  obtain ⟨events, fault?⟩ := reading
  rw [ofEvents_reading_eq_ok_iff, ofEvents_reading_eq_ok_iff, and_assoc]
  apply and_congr_right
  intro ends
  constructor
  · intro spells
    have keeps : root.depth ≤ maxNesting := by
      apply spells.depth_le_iff.2
      intro k name attributes member
      exact absurd (mem_of_leveled member) not_empty_mem_expand
    refine ⟨?_, keeps⟩
    have accepted := ofEvents_eq_ok_iff.2 spells
    rw [result_ofEvents, Traced.result_bind_eq_ok_iff] at accepted
    obtain ⟨b, run, finished⟩ := accepted
    rw [← ofEvents_eq_ok_iff, result_ofEvents, Traced.result_bind_of_ok _ (run_of_expand run)]
    exact finished
  · rintro ⟨spells, keeps⟩
    exact spells.expand keeps

/-! ## The limit -/

/-- **The tree of a document keeps the limit on nesting iff its empty tags do.** What is accepted
nests elements at most one level deeper than the limit, and keeps the limit iff none of its empty
tags stands where as many elements are open as the limit admits. Written with a start tag and an end
tag for each empty tag, it is accepted iff its tree keeps the limit, and then as the same tree. -/
theorem nesting_of_documents (reading : Reading Event) (root : Element) :
    ((Element.ofEvents reading).result = .ok root →
      root.depth ≤ maxNesting + 1
      ∧ (root.depth ≤ maxNesting ↔ ∀ level name attributes,
          (level, .empty name attributes) ∈ leveled 0 reading.items → level < maxNesting))
    ∧ ((Element.ofEvents (expandReading reading)).result = .ok root
        ↔ (Element.ofEvents reading).result = .ok root ∧ root.depth ≤ maxNesting) := by
  refine ⟨?_, ofEvents_expand_eq_ok_iff⟩
  intro accepted
  obtain ⟨-, spells⟩ := ofEvents_reading_eq_ok_iff.1 accepted
  constructor
  · obtain ⟨before, one, after, -, -, spells, -⟩ := spells
    rw [← Element.depthList_singleton]
    exact spells.content.depthList_le
  · rw [spells.depth_le_iff, EmptyWithin, Nat.zero_add]

/-- A row inside of a number of elements of one name. -/
def wrap (name : String) : Nat → List Event → List Event
  | 0, events => events
  | count + 1, events => .start name [] :: (wrap name count events ++ [.close name])

/-- An element without content inside of a number of elements, all of one name. -/
def tower (name : String) : Nat → Element
  | 0 => .ofTag name [] "" []
  | count + 1 => .ofTag name [] "" [tower name count]

/-- An empty tag inside of elements is such a tower, and uses a level for each element around it. -/
theorem spellsElement_tower (name : String) (count : Nat) :
    SpellsElement count (wrap name count [.empty name []]) (tower name count) := by
  induction count with
  | zero => exact .empty name [] Element.isOf_ofTag
  | succ count ih => exact .element name [] Element.isOf_ofTag ih.content

theorem depth_tower (name : String) (count : Nat) : (tower name count).depth = count + 1 := by
  induction count with
  | zero => rw [tower, Element.depth_ofTag, Element.depthList_nil]
  | succ count ih => rw [tower, Element.depth_ofTag, Element.depthList_singleton, ih]

/-- A tower that uses as many levels as there are is accepted. -/
theorem ofEvents_tower {name : String} {count : Nat} (le : count = maxNesting) :
    (Element.ofEvents ⟨wrap name count [.empty name []], none⟩).result
      = .ok (tower name count) := by
  apply ofEvents_eq_ok_iff.2
  refine ⟨[], wrap name count [.empty name []], [], ?_, nofun, ?_, nofun⟩
  · rw [List.nil_append, List.append_nil]
  · rw [← le]
    exact spellsElement_tower name count

theorem nesting_of_documents_of_tower :
    (Element.ofEvents ⟨wrap "a" maxNesting [.empty "a" []], none⟩).result
        = .ok (tower "a" maxNesting)
      ∧ (tower "a" maxNesting).depth ≤ maxNesting + 1 :=
  ⟨ofEvents_tower rfl, ((nesting_of_documents _ _).1 (ofEvents_tower rfl)).1⟩

/-- An empty tag inside of as many elements as the limit admits makes a tree that is deeper than the
limit. The tree is accepted, and is refused with two tags in place of the empty one. -/
theorem empty_tag_exceeds_limit :
    ∃ root, (Element.ofEvents ⟨wrap "a" maxNesting [.empty "a" []], none⟩).result = .ok root
      ∧ maxNesting < root.depth
      ∧ ∀ root', (Element.ofEvents
          (expandReading ⟨wrap "a" maxNesting [.empty "a" []], none⟩)).result ≠ .ok root' := by
  have accepted : (Element.ofEvents ⟨wrap "a" maxNesting [.empty "a" []], none⟩).result
      = .ok (tower "a" maxNesting) := ofEvents_tower rfl
  have deep : maxNesting < (tower "a" maxNesting).depth := by
    rw [depth_tower]
    exact Nat.lt_succ_self maxNesting
  refine ⟨tower "a" maxNesting, accepted, deep, ?_⟩
  intro root' expanded
  obtain ⟨same, keeps⟩ := ofEvents_expand_eq_ok_iff.1 expanded
  rw [accepted] at same
  obtain rfl : tower "a" maxNesting = root' := Except.ok.inj same
  exact absurd keeps (Nat.not_le.2 deep)

end PetriQuery.Document
