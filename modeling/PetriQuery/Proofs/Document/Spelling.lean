import PetriQuery.Document.Building
import PetriQuery.Proofs.Document.Vocabulary
import Mathlib.Data.List.Basic
import Mathlib.Data.List.Induction

/-!
# Documents as rows of events

Which tree a row of events spells, and which rows spell a tree at all.

The first is a grammar. The content of an element is a row of texts, CDATA sections, comments,
declarations and elements; an element is an empty tag, or a start tag, a content and an end tag of
the same name; a document is one element between blank texts, comments and declarations. Levels
bound how deep start tags nest.

The second is a list of conditions on the row that speak of no tree (`IsDocument`): on the kinds of
events, on the tags alone, and on what stands at which level. The two are equivalent
(`exists_spellsDocument_iff`).
-/

set_option autoImplicit false

namespace PetriQuery.Document

open Markup (Event)

/-! ## The grammar -/

/-- The attributes of a tag give the key the value. Of several ones with the key it is the last. -/
def Assigns (attributes : List (String × String)) (key value : String) : Prop :=
  ∃ before after, attributes = before ++ (key, value) :: after ∧ ∀ later ∈ after, later.1 ≠ key

/-- The element is the one of a tag, with the text and the children inside it. Its kind is what the
vocabulary says of the name, and its attributes are those of the tag. -/
structure Element.IsOf (e : Element) (name : String) (attributes : List (String × String))
    (text : String) (children : List Element) : Prop where
  kind : (name, e.tag) ∈ Tag.vocabulary ∨ ¬Tag.InVocabulary name ∧ e.tag = .other name
  text : e.text = text
  attributes : ∀ key value, e.get? key = some value ↔ Assigns attributes key value
  children : e.children = children

/-- The events are the content of an element with the text and the children, and start tags nest in
it at most as deep as there are levels. The text is what the texts and CDATA sections that stand
directly in the content give, one after the other. -/
inductive SpellsContent : Nat → List Event → String → List Element → Prop
  | nil {levels} : SpellsContent levels [] "" []
  | text {levels events text children} (content : String) :
      SpellsContent levels events text children →
      SpellsContent levels (events ++ [.text content]) (text ++ content) children
  | cdata {levels events text children} (content : String) :
      SpellsContent levels events text children →
      SpellsContent levels (events ++ [.cdata content]) (text ++ content) children
  | comment {levels events text children} :
      SpellsContent levels events text children →
      SpellsContent levels (events ++ [.comment]) text children
  | declaration {levels events text children} :
      SpellsContent levels events text children →
      SpellsContent levels (events ++ [.declaration]) text children
  | empty {levels events text children e} (name : String) (attributes : List (String × String)) :
      e.IsOf name attributes "" [] → SpellsContent levels events text children →
      SpellsContent levels (events ++ [.empty name attributes]) text (children ++ [e])
  | element {levels events text children inside text' children' e} (name : String)
      (attributes : List (String × String)) :
      e.IsOf name attributes text' children' → SpellsContent (levels + 1) events text children →
      SpellsContent levels inside text' children' →
      SpellsContent (levels + 1)
        (events ++ .start name attributes :: (inside ++ [.close name])) text (children ++ [e])

/-- The events are an element. An empty tag uses no level, a start tag uses one. -/
inductive SpellsElement : Nat → List Event → Element → Prop
  | empty {levels e} (name : String) (attributes : List (String × String)) :
      e.IsOf name attributes "" [] → SpellsElement levels [.empty name attributes] e
  | element {levels inside text children e} (name : String) (attributes : List (String × String)) :
      e.IsOf name attributes text children → SpellsContent levels inside text children →
      SpellsElement (levels + 1) (.start name attributes :: (inside ++ [.close name])) e

/-- What may stand beside the root element: blank text, comments and declarations. -/
def IsBeside : Event → Prop
  | .text content => ∀ c ∈ content.toList, Text.isBlank c = true
  | .comment | .declaration => True
  | _ => False

/-- The events are a document with the root element. -/
def SpellsDocument (events : List Event) (root : Element) : Prop :=
  ∃ before one after, events = before ++ one ++ after ∧ (∀ event ∈ before, IsBeside event)
    ∧ SpellsElement maxNesting one root ∧ ∀ event ∈ after, IsBeside event

/-! ## The element of a tag -/

/-- The element of a tag, with what is inside it. -/
def Element.ofTag (name : String) (attributes : List (String × String)) (text : String)
    (children : List Element) : Element :=
  .mk (.ofName name) text (.ofList attributes) children

/-- What is assigned when one more attribute is written. -/
theorem assigns_concat_iff {attributes : List (String × String)} {last : String × String}
    {key value : String} :
    Assigns (attributes ++ [last]) key value
      ↔ if last.1 = key then last.2 = value else Assigns attributes key value := by
  constructor
  · rintro ⟨before, after, written, none⟩
    rcases List.eq_nil_or_concat after with rfl | ⟨after, final, rfl⟩
    · obtain ⟨-, same⟩ := List.append_inj' written rfl
      obtain rfl := List.singleton_inj.1 same
      rw [if_pos rfl]
    · rw [List.concat_eq_append] at written none
      rw [← List.cons_append, ← List.append_assoc] at written
      obtain ⟨rfl, same⟩ := List.append_inj' written rfl
      obtain rfl := List.singleton_inj.1 same
      obtain ⟨none, other⟩ := List.forall_mem_append.1 none
      rw [if_neg (other last List.mem_cons_self)]
      exact ⟨before, after, rfl, none⟩
  · by_cases same : last.1 = key
    · rw [if_pos same]
      rintro rfl
      subst same
      exact ⟨attributes, [], rfl, List.forall_mem_nil _⟩
    · rw [if_neg same]
      rintro ⟨before, after, rfl, none⟩
      refine ⟨before, after ++ [last], by rw [List.append_assoc, List.cons_append], ?_⟩
      exact List.forall_mem_append.2 ⟨none, List.forall_mem_singleton.2 same⟩

/-- The attributes of a tag are looked up by what the tag assigns. -/
theorem Attributes.get?_ofList_eq_some_iff {attributes : List (String × String)}
    {key value : String} :
    (ofList attributes).get? key = some value ↔ Assigns attributes key value := by
  induction attributes using List.reverseRecOn with
  | nil =>
    constructor
    · intro found
      cases found
    · rintro ⟨before, after, written, -⟩
      cases before with
      | nil => cases written
      | cons first before => cases written
  | append_singleton attributes last ih =>
    have added : ofList (attributes ++ [last]) = (ofList attributes).insert last.1 last.2 := by
      rw [ofList, List.foldl_append]
      rfl
    rw [added, get?_insert, assigns_concat_iff]
    split
    · exact Option.some_inj
    · exact ih

/-- There is exactly one element of a tag with what is inside it. -/
theorem Element.isOf_iff {e : Element} {name : String} {attributes : List (String × String)}
    {text : String} {children : List Element} :
    e.IsOf name attributes text children ↔ e = .ofTag name attributes text children := by
  constructor
  · rintro ⟨kind, rfl, assigned, rfl⟩
    obtain ⟨tag, text, own, children⟩ := e
    have same : own = .ofList attributes := by
      apply Attributes.ext_get?
      intro key
      apply Option.ext
      intro value
      rw [Attributes.get?_ofList_eq_some_iff]
      exact assigned key value
    rw [ofTag, same, Tag.ofName_eq_iff.2 kind]
    rfl
  · rintro rfl
    exact ⟨Tag.ofName_eq_iff.1 rfl, rfl, fun _ _ => Attributes.get?_ofList_eq_some_iff, rfl⟩

theorem Element.isOf_ofTag {name : String} {attributes : List (String × String)} {text : String}
    {children : List Element} :
    (Element.ofTag name attributes text children).IsOf name attributes text children :=
  isOf_iff.2 rfl

/-! ## Contents -/

/-- An element is a content that has it as its only child. -/
theorem SpellsElement.content {levels : Nat} {events : List Event} {e : Element}
    (h : SpellsElement levels events e) : SpellsContent levels events "" [e] := by
  cases h with
  | empty name attributes own => exact .empty name attributes own .nil
  | element name attributes own inside => exact .element name attributes own .nil inside

/-- Contents one after the other are a content. -/
theorem SpellsContent.append {levels : Nat} {events events' : List Event} {text text' : String}
    {children children' : List Element} (h : SpellsContent levels events text children)
    (h' : SpellsContent levels events' text' children') :
    SpellsContent levels (events ++ events') (text ++ text') (children ++ children') := by
  induction h' with
  | nil =>
    rw [List.append_nil, String.append_empty, List.append_nil]
    exact h
  | text content _ ih =>
    rw [← List.append_assoc, ← String.append_assoc]
    exact .text content (ih h)
  | cdata content _ ih =>
    rw [← List.append_assoc, ← String.append_assoc]
    exact .cdata content (ih h)
  | comment _ ih =>
    rw [← List.append_assoc]
    exact .comment (ih h)
  | declaration _ ih =>
    rw [← List.append_assoc]
    exact .declaration (ih h)
  | empty name attributes own _ ih =>
    rw [← List.append_assoc, ← List.append_assoc]
    exact .empty name attributes own (ih h)
  | element name attributes own _ inside ih _ =>
    rw [← List.append_assoc, ← List.append_assoc]
    exact .element name attributes own (ih h) inside

/-! ## The conditions -/

/-- Whether an event is a tag. -/
def isTag : Event → Bool
  | .start _ _ | .close _ | .empty _ _ => true
  | _ => false

/-- The tags are a row of elements, each start tag with its end tag, which has the same name. -/
inductive Balanced : List Event → Prop
  | nil : Balanced []
  | empty {tags} (name : String) (attributes : List (String × String)) :
      Balanced tags → Balanced (.empty name attributes :: tags)
  | element {inside tags} (name : String) (attributes : List (String × String)) :
      Balanced inside → Balanced tags →
      Balanced (.start name attributes :: (inside ++ .close name :: tags))

/-- The tags are exactly one element. -/
inductive BalancedElement : List Event → Prop
  | empty (name : String) (attributes : List (String × String)) :
      BalancedElement [.empty name attributes]
  | element {inside} (name : String) (attributes : List (String × String)) :
      Balanced inside → BalancedElement (.start name attributes :: (inside ++ [.close name]))

/-- How many elements are open after an event, from how many are open before it. -/
def levelAfter (level : Nat) : Event → Nat
  | .start _ _ => level + 1
  | .close _ => level - 1
  | _ => level

/-- The events, each with the number of elements that are open before it. -/
def leveled (level : Nat) : List Event → List (Nat × Event)
  | [] => []
  | event :: events => (level, event) :: leveled (levelAfter level event) events

/-- The conditions on the events of a document. -/
structure IsDocument (events : List Event) : Prop where
  /-- Processing instructions and document types stand nowhere. -/
  plain : ∀ event ∈ events, event ≠ .instruction ∧ event ≠ .doctype
  /-- The tags are exactly one element. -/
  balanced : BalancedElement (events.filter isTag)
  /-- With each start tag, no more elements are open than the limit says. -/
  nesting : ∀ level name attributes,
    (level, .start name attributes) ∈ leveled 0 events → level < maxNesting
  /-- Text outside of the root element is blank. -/
  blank : ∀ content, (0, .text content) ∈ leveled 0 events →
    ∀ c ∈ content.toList, Text.isBlank c = true
  /-- No CDATA section is outside of the root element. -/
  noCData : ∀ content, (0, .cdata content) ∉ leveled 0 events

/-! ## Levels -/

/-- The events of a row have levels in it. -/
theorem exists_level {event : Event} {events : List Event} (level : Nat) (h : event ∈ events) :
    ∃ k, (k, event) ∈ leveled level events := by
  induction events generalizing level with
  | nil => cases h
  | cons first rest ih =>
    rcases List.mem_cons.1 h with rfl | later
    · exact ⟨level, List.mem_cons_self⟩
    · obtain ⟨k, member⟩ := ih (levelAfter level first) later
      exact ⟨k, List.mem_cons_of_mem _ member⟩

/-- What has a level in a row is in the row. -/
theorem mem_of_leveled {level k : Nat} {event : Event} {events : List Event}
    (h : (k, event) ∈ leveled level events) : event ∈ events := by
  induction events generalizing level with
  | nil => cases h
  | cons first rest ih =>
    rcases List.mem_cons.1 h with same | later
    · obtain ⟨-, rfl⟩ := Prod.mk.inj same
      exact List.mem_cons_self
    · exact List.mem_cons_of_mem first (ih later)

/-- A row goes on at the level at which the row before it ends. -/
theorem leveled_append (level : Nat) (events events' : List Event) :
    leveled level (events ++ events')
      = leveled level events ++ leveled (events.foldl levelAfter level) events' := by
  induction events generalizing level with
  | nil => rfl
  | cons event events ih =>
    rw [List.cons_append, leveled, leveled, ih, List.foldl_cons, List.cons_append]

/-- Only tags change the level. -/
theorem levelAfter_of_not_isTag {event : Event} (level : Nat) (h : isTag event = false) :
    levelAfter level event = level := by
  cases event with
  | start name attributes => cases h
  | close name => cases h
  | empty name attributes => cases h
  | _ => rfl

/-- A row without tags is at one level. -/
theorem leveled_of_not_isTag {events : List Event} (level : Nat)
    (h : ∀ event ∈ events, isTag event = false) :
    leveled level events = events.map (level, ·) ∧ events.foldl levelAfter level = level := by
  induction events with
  | nil => exact ⟨rfl, rfl⟩
  | cons event events ih =>
    obtain ⟨head, tail⟩ := List.forall_mem_cons.1 h
    obtain ⟨entries, final⟩ := ih tail
    rw [leveled, List.foldl_cons, levelAfter_of_not_isTag level head, entries]
    exact ⟨rfl, final⟩

/-- A content changes nothing in the end of what only start tags and end tags change, each end tag
back to what was before its start tag. -/
theorem SpellsContent.foldl_eq_self {σ : Type} {after : σ → Event → σ}
    (undone : ∀ state name attributes,
      after (after state (.start name attributes)) (.close name) = state)
    (kept : ∀ state event, (∀ name attributes, event ≠ .start name attributes) →
      (∀ name, event ≠ .close name) → after state event = state)
    {levels : Nat} {events : List Event} {text : String} {children : List Element}
    (h : SpellsContent levels events text children) (state : σ) :
    events.foldl after state = state := by
  induction h generalizing state with
  | nil => rfl
  | text _ _ ih | cdata _ _ ih | comment _ ih | declaration _ ih | empty _ _ _ _ ih =>
    rw [List.foldl_append, ih]
    exact kept state _ nofun nofun
  | element name attributes _ _ _ ih ih' =>
    rw [List.foldl_append, ih, List.foldl_cons, List.foldl_append, ih']
    exact undone state name attributes

/-- A content ends at the level at which it starts. -/
theorem SpellsContent.foldl_levelAfter {levels : Nat} {events : List Event} {text : String}
    {children : List Element} (h : SpellsContent levels events text children) (level : Nat) :
    events.foldl levelAfter level = level := by
  refine h.foldl_eq_self (fun _ _ _ => rfl) (fun level event noStart noClose => ?_) level
  cases event with
  | start name attributes => exact absurd rfl (noStart name attributes)
  | close name => exact absurd rfl (noClose name)
  | _ => rfl

/-- What can stand at a level within a content that starts at another level. -/
def FitsAt (level levels : Nat) (entry : Nat × Event) : Prop :=
  level ≤ entry.1 ∧ (∀ name attributes, entry.2 = .start name attributes → entry.1 < level + levels)
    ∧ entry.2 ≠ .instruction ∧ entry.2 ≠ .doctype

/-- What is no start tag fits at the level at which the content starts. -/
theorem fitsAt_self {level levels : Nat} {event : Event}
    (noStart : ∀ name attributes, event ≠ .start name attributes)
    (plain : event ≠ .instruction ∧ event ≠ .doctype) : FitsAt level levels (level, event) :=
  ⟨Nat.le_refl level, fun name attributes same => absurd same (noStart name attributes), plain⟩

/-- In a content, nothing is below its level and no start tag is above the levels that it has. -/
theorem SpellsContent.fitsAt {levels : Nat} {events : List Event} {text : String}
    {children : List Element} (h : SpellsContent levels events text children) (level : Nat) :
    ∀ entry ∈ leveled level events, FitsAt level levels entry := by
  induction h generalizing level with
  | nil =>
    intro entry member
    cases member
  | text _ h ih | cdata _ h ih | comment h ih | declaration h ih | empty _ _ _ h ih =>
    intro entry member
    rw [leveled_append, h.foldl_levelAfter, List.mem_append] at member
    rcases member with before | last
    · exact ih level entry before
    · obtain rfl := List.mem_singleton.1 last
      exact fitsAt_self nofun ⟨nofun, nofun⟩
  | @element levels _ _ _ _ _ _ _ name attributes _ h inside ih ih' =>
    intro entry member
    rw [leveled_append, h.foldl_levelAfter, List.mem_append] at member
    rcases member with before | within
    · exact ih level entry before
    · rcases List.mem_cons.1 within with rfl | within
      · refine ⟨Nat.le_refl level, fun _ _ _ => ?_, nofun, nofun⟩
        exact Nat.lt_add_of_pos_right (Nat.succ_pos levels)
      · rw [leveled_append, levelAfter, inside.foldl_levelAfter, List.mem_append] at within
        rcases within with within | last
        · -- Inside of the tags it is one level higher, and one level is used up.
          obtain ⟨above, start, plain⟩ := ih' (level + 1) entry within
          refine ⟨Nat.le_of_succ_le above, ?_, plain⟩
          intro name attributes same
          have bound := start name attributes same
          omega
        · obtain rfl := List.mem_singleton.1 last
          exact ⟨Nat.le_succ level, nofun, nofun, nofun⟩

/-! ## From the grammar to the conditions -/

/-- Balanced rows one after the other are balanced. -/
theorem Balanced.append {tags tags' : List Event} (h : Balanced tags) (h' : Balanced tags') :
    Balanced (tags ++ tags') := by
  induction h with
  | nil => exact h'
  | empty name attributes _ ih => exact .empty name attributes ih
  | @element inside tags name attributes within _ _ ih =>
    have whole : Balanced (.start name attributes :: (inside ++ .close name :: (tags ++ tags'))) :=
      .element name attributes within ih
    rw [List.cons_append, List.append_assoc, List.cons_append]
    exact whole

/-- The tags of a content are balanced. -/
theorem SpellsContent.balanced {levels : Nat} {events : List Event} {text : String}
    {children : List Element} (h : SpellsContent levels events text children) :
    Balanced (events.filter isTag) := by
  induction h with
  | nil => exact .nil
  | text _ _ ih | cdata _ _ ih | comment _ ih | declaration _ ih =>
    rw [List.filter_append]
    exact ih.append .nil
  | empty name attributes _ _ ih =>
    rw [List.filter_append]
    exact ih.append (.empty name attributes .nil)
  | element name attributes _ _ _ ih ih' =>
    rw [List.filter_append, List.filter_cons_of_pos (by rfl), List.filter_append]
    exact ih.append (.element name attributes ih' .nil)

/-- The tags of an element are exactly one element. -/
theorem SpellsElement.balancedElement {levels : Nat} {events : List Event} {e : Element}
    (h : SpellsElement levels events e) : BalancedElement (events.filter isTag) := by
  cases h with
  | empty name attributes => exact .empty name attributes
  | element name attributes _ inside =>
    rw [List.filter_cons_of_pos (by rfl), List.filter_append]
    exact .element name attributes inside.balanced

/-- At the level at which an element starts, it has nothing but its tags. -/
theorem SpellsElement.isTag_of_level_eq {levels level : Nat} {events : List Event} {e : Element}
    (h : SpellsElement levels events e) :
    ∀ entry ∈ leveled level events, entry.1 = level → isTag entry.2 = true := by
  intro entry member same
  cases h with
  | empty name attributes =>
    obtain rfl := List.mem_singleton.1 member
    rfl
  | element name attributes _ inside =>
    rcases List.mem_cons.1 member with rfl | within
    · rfl
    · rw [leveled_append, levelAfter, List.mem_append] at within
      rcases within with within | last
      · have above := (inside.fitsAt (level + 1) entry within).1
        omega
      · obtain rfl := List.mem_singleton.1 last
        rfl

/-- What may stand beside the root element is no tag. -/
theorem isTag_of_isBeside {event : Event} (h : IsBeside event) : isTag event = false := by
  cases event with
  | start name attributes => cases h
  | close name => cases h
  | empty name attributes => cases h
  | _ => rfl

/-- Beside the root element there are no tags. -/
theorem filter_isTag_of_isBeside {events : List Event} (h : ∀ event ∈ events, IsBeside event) :
    events.filter isTag = [] := by
  rw [List.filter_eq_nil_iff]
  intro event member
  exact Bool.eq_false_iff.1 (isTag_of_isBeside (h event member))

/-- What may stand beside the root element stands everywhere. -/
theorem plain_of_isBeside {event : Event} (h : IsBeside event) :
    event ≠ .instruction ∧ event ≠ .doctype := by
  constructor
  · rintro rfl
    cases h
  · rintro rfl
    cases h

/-- What has a level in a document stands beside the root element, and no element is open there, or
has that level in the root element. -/
theorem mem_leveled_document {before one after : List Event} {root : Element}
    (beside : ∀ event ∈ before, IsBeside event) (spells : SpellsElement maxNesting one root)
    (beside' : ∀ event ∈ after, IsBeside event) {entry : Nat × Event}
    (member : entry ∈ leveled 0 (before ++ one ++ after)) :
    (entry.1 = 0 ∧ IsBeside entry.2) ∨ entry ∈ leveled 0 one := by
  have flat := leveled_of_not_isTag 0 fun event h => isTag_of_isBeside (beside event h)
  have flat' := leveled_of_not_isTag 0 fun event h => isTag_of_isBeside (beside' event h)
  rw [leveled_append, leveled_append, List.foldl_append, flat.2, spells.content.foldl_levelAfter,
    flat.1, flat'.1, List.mem_append, List.mem_append] at member
  rcases member with (first | within) | last
  · obtain ⟨event, h, rfl⟩ := List.mem_map.1 first
    exact Or.inl ⟨rfl, beside event h⟩
  · exact Or.inr within
  · obtain ⟨event, h, rfl⟩ := List.mem_map.1 last
    exact Or.inl ⟨rfl, beside' event h⟩

/-- A document meets the conditions. -/
theorem SpellsDocument.isDocument {events : List Event} {root : Element}
    (h : SpellsDocument events root) : IsDocument events := by
  obtain ⟨before, one, after, rfl, beside, spells, beside'⟩ := h
  have fits := spells.content.fitsAt 0
  constructor
  · intro event member
    obtain ⟨k, member⟩ := exists_level 0 member
    rcases mem_leveled_document beside spells beside' member with ⟨-, stands⟩ | within
    · exact plain_of_isBeside stands
    · exact (fits _ within).2.2
  · have none := filter_isTag_of_isBeside beside
    have none' := filter_isTag_of_isBeside beside'
    rw [List.filter_append, List.filter_append, none, none', List.nil_append, List.append_nil]
    exact spells.balancedElement
  · intro level name attributes member
    rcases mem_leveled_document beside spells beside' member with ⟨-, stands⟩ | within
    · cases stands
    · have bound := (fits _ within).2.1 name attributes rfl
      rwa [Nat.zero_add] at bound
  · intro content member
    rcases mem_leveled_document beside spells beside' member with ⟨-, stands⟩ | within
    · exact stands
    · cases spells.isTag_of_level_eq _ within rfl
  · intro content member
    rcases mem_leveled_document beside spells beside' member with ⟨-, stands⟩ | within
    · cases stands
    · cases spells.isTag_of_level_eq _ within rfl

/-! ## From the conditions to the grammar -/

/-- Without tags, and without what may stand nowhere, a row is a content without children. -/
theorem exists_text_of_not_isTag (levels : Nat) {events : List Event}
    (noTag : ∀ event ∈ events, isTag event = false)
    (plain : ∀ event ∈ events, event ≠ .instruction ∧ event ≠ .doctype) :
    ∃ text, SpellsContent levels events text [] := by
  induction events with
  | nil => exact ⟨"", .nil⟩
  | cons event events ih =>
    obtain ⟨head, noTag⟩ := List.forall_mem_cons.1 noTag
    obtain ⟨⟨noInstruction, noDoctype⟩, plain⟩ := List.forall_mem_cons.1 plain
    obtain ⟨text, rest⟩ := ih noTag plain
    cases event with
    | text content => exact ⟨_, (SpellsContent.text content .nil).append rest⟩
    | cdata content => exact ⟨_, (SpellsContent.cdata content .nil).append rest⟩
    | comment => exact ⟨_, (SpellsContent.comment .nil).append rest⟩
    | declaration => exact ⟨_, (SpellsContent.declaration .nil).append rest⟩
    | instruction => exact absurd rfl noInstruction
    | doctype => exact absurd rfl noDoctype
    | _ => cases head

/-- A row in which no tags are left has none. -/
theorem not_isTag_of_filter_eq_nil {events : List Event} (filtered : events.filter isTag = []) :
    ∀ event ∈ events, isTag event = false := by
  intro event member
  exact Bool.eq_false_iff.2 (List.filter_eq_nil_iff.1 filtered event member)

/-- A row is split at the first of its tags. -/
theorem exists_split_of_filter_cons {events tags : List Event} {tag : Event}
    (filtered : events.filter isTag = tag :: tags) :
    ∃ before after, events = before ++ tag :: after ∧ (∀ event ∈ before, isTag event = false)
      ∧ after.filter isTag = tags := by
  obtain ⟨before, after, split, noTag, -, rest⟩ := List.filter_eq_cons_iff.1 filtered
  refine ⟨before, after, split, ?_, rest⟩
  intro event member
  exact Bool.eq_false_iff.2 (noTag event member)

/-- A row whose tags start with an element is split at the tags of that element. -/
theorem exists_split_of_filter {events inside tags : List Event} {name : String}
    {attributes : List (String × String)}
    (filtered : events.filter isTag
      = .start name attributes :: (inside ++ .close name :: tags)) :
    ∃ before body after, events = before ++ .start name attributes :: (body ++ .close name :: after)
      ∧ (∀ event ∈ before, isTag event = false) ∧ body.filter isTag = inside
      ∧ after.filter isTag = tags := by
  obtain ⟨before, rest, rfl, noTag, filtered⟩ := exists_split_of_filter_cons filtered
  obtain ⟨body, rest, rfl, within, filtered⟩ := List.filter_eq_append_iff.1 filtered
  obtain ⟨between, after, rfl, noTag', last⟩ := exists_split_of_filter_cons filtered
  refine ⟨before, body ++ between, after, by rw [List.append_assoc], noTag, ?_, last⟩
  -- What stands between the tags inside and the end tag is inside too.
  have none : between.filter isTag = [] :=
    List.filter_eq_nil_iff.2 fun event member => Bool.eq_false_iff.1 (noTag' event member)
  rw [List.filter_append, within, none, List.append_nil]

/-- No start tag of a row that starts at a level is above the levels that it has. -/
def NestsWithin (level levels : Nat) (events : List Event) : Prop :=
  ∀ k name attributes, (k, .start name attributes) ∈ leveled level events → k < level + levels

/-- A row whose tags are balanced is a content. -/
theorem exists_content_of_balanced {tags : List Event} (balanced : Balanced tags)
    {events : List Event} (filtered : events.filter isTag = tags)
    (plain : ∀ event ∈ events, event ≠ .instruction ∧ event ≠ .doctype) {level levels : Nat}
    (nests : NestsWithin level levels events) :
    ∃ text children, SpellsContent levels events text children := by
  induction balanced generalizing events level levels with
  | nil =>
    have noTag := not_isTag_of_filter_eq_nil filtered
    obtain ⟨text, spells⟩ := exists_text_of_not_isTag levels noTag plain
    exact ⟨text, [], spells⟩
  | empty name attributes _ ih =>
    obtain ⟨before, after, rfl, noTag, filtered⟩ := exists_split_of_filter_cons filtered
    obtain ⟨plainBefore, plain⟩ := List.forall_mem_append.1 plain
    obtain ⟨-, plain⟩ := List.forall_mem_cons.1 plain
    obtain ⟨text, first⟩ := exists_text_of_not_isTag levels noTag plainBefore
    have nestsAfter : NestsWithin level levels after := by
      intro k name' attributes' member
      apply nests k name' attributes'
      rw [leveled_append, (leveled_of_not_isTag level noTag).2]
      exact List.mem_append_right _ (List.mem_cons_of_mem _ member)
    obtain ⟨text', children, rest⟩ := ih filtered plain nestsAfter
    have spells := first.append
      ((SpellsContent.empty name attributes Element.isOf_ofTag .nil).append rest)
    exact ⟨_, _, spells⟩
  | element name attributes _ _ ih ih' =>
    obtain ⟨before, body, after, rfl, noTag, inner, outer⟩ := exists_split_of_filter filtered
    obtain ⟨plainBefore, plain⟩ := List.forall_mem_append.1 plain
    obtain ⟨-, plain⟩ := List.forall_mem_cons.1 plain
    obtain ⟨plainBody, plain⟩ := List.forall_mem_append.1 plain
    obtain ⟨-, plain⟩ := List.forall_mem_cons.1 plain
    have place : leveled level (before ++ .start name attributes :: (body ++ .close name :: after))
        = leveled level before ++ (level, .start name attributes) :: (leveled (level + 1) body
          ++ leveled (body.foldl levelAfter (level + 1)) (.close name :: after)) := by
      rw [leveled_append, (leveled_of_not_isTag level noTag).2, leveled, levelAfter, leveled_append]
    -- The start tag stands at the level of the row, so there is a level left for what is inside.
    obtain ⟨below, rfl⟩ : ∃ below, levels = below + 1 := by
      have bound := nests level name attributes
        (place ▸ List.mem_append_right _ List.mem_cons_self)
      exact Nat.exists_eq_add_one.2 (by omega)
    have nestsBody : NestsWithin (level + 1) below body := by
      intro k name' attributes' member
      have bound := nests k name' attributes'
        (place ▸ List.mem_append_right _
          (List.mem_cons_of_mem _ (List.mem_append_left _ member)))
      omega
    obtain ⟨text', children', within⟩ := ih inner plainBody nestsBody
    rw [within.foldl_levelAfter, leveled, levelAfter, Nat.add_sub_cancel] at place
    have nestsAfter : NestsWithin level (below + 1) after := by
      intro k name' attributes' member
      apply nests k name' attributes'
      rw [place]
      exact List.mem_append_right _ (List.mem_cons_of_mem _ (List.mem_append_right _
        (List.mem_cons_of_mem _ member)))
    obtain ⟨text, first⟩ := exists_text_of_not_isTag (below + 1) noTag plainBefore
    obtain ⟨text'', children'', rest⟩ := ih' outer plain nestsAfter
    have spells := first.append
      ((SpellsContent.element name attributes Element.isOf_ofTag .nil within).append rest)
    rw [List.nil_append, List.cons_append, List.append_assoc] at spells
    exact ⟨_, _, spells⟩

/-- Under the conditions, what is no tag may stand beside the root element where nothing is open. -/
theorem IsDocument.isBeside {events : List Event} {event : Event} (h : IsDocument events)
    (member : (0, event) ∈ leveled 0 events) (noTag : isTag event = false) : IsBeside event := by
  have plain := h.plain event (mem_of_leveled member)
  cases event with
  | text content => exact h.blank content member
  | cdata content => exact absurd member (h.noCData content)
  | comment | declaration => trivial
  | instruction => exact absurd rfl plain.1
  | doctype => exact absurd rfl plain.2
  | _ => cases noTag

/-- Under the conditions, what stands around the tags of the one element may stand there. -/
theorem IsDocument.isBeside_around {before one after : List Event}
    (h : IsDocument (before ++ one ++ after)) (ends : one.foldl levelAfter 0 = 0)
    (noTag : ∀ event ∈ before, isTag event = false)
    (noTag' : ∀ event ∈ after, isTag event = false) :
    (∀ event ∈ before, IsBeside event) ∧ ∀ event ∈ after, IsBeside event := by
  have flat := leveled_of_not_isTag 0 noTag
  have flat' := leveled_of_not_isTag 0 noTag'
  have place : leveled 0 (before ++ one ++ after)
      = before.map (0, ·) ++ leveled 0 one ++ after.map (0, ·) := by
    rw [leveled_append, leveled_append, List.foldl_append, flat.2, ends, flat.1, flat'.1]
  constructor
  · intro event member
    apply h.isBeside _ (noTag event member)
    rw [place]
    exact List.mem_append_left _ (List.mem_append_left _ (List.mem_map_of_mem member))
  · intro event member
    apply h.isBeside _ (noTag' event member)
    rw [place]
    exact List.mem_append_right _ (List.mem_map_of_mem member)

/-- Under the conditions, the row is a document. -/
theorem IsDocument.exists_spellsDocument {events : List Event} (h : IsDocument events) :
    ∃ root, SpellsDocument events root := by
  have balanced := h.balanced
  generalize filtered : events.filter isTag = tags at balanced
  cases balanced with
  | empty name attributes =>
    obtain ⟨before, after, rfl, noTag, last⟩ := exists_split_of_filter_cons filtered
    have noTag' := not_isTag_of_filter_eq_nil last
    have spelled : before ++ .empty name attributes :: after
        = before ++ [.empty name attributes] ++ after := by
      rw [List.append_assoc, List.singleton_append]
    rw [spelled] at h ⊢
    obtain ⟨beside, beside'⟩ := h.isBeside_around rfl noTag noTag'
    exact ⟨_, before, _, after, rfl, beside, .empty name attributes Element.isOf_ofTag,
      beside'⟩
  | element name attributes inside =>
    obtain ⟨before, body, after, rfl, noTag, inner, last⟩ := exists_split_of_filter filtered
    have noTag' := not_isTag_of_filter_eq_nil last
    have spelled : before ++ .start name attributes :: (body ++ .close name :: after)
        = before ++ .start name attributes :: (body ++ [.close name]) ++ after := by
      rw [List.append_assoc, List.cons_append, List.append_assoc, List.singleton_append]
    rw [spelled] at h ⊢
    have plain : ∀ event ∈ body, event ≠ .instruction ∧ event ≠ .doctype := by
      intro event member
      apply h.plain
      simp [member]
    have nests : NestsWithin 1 (maxNesting - 1) body := by
      intro k name' attributes' member
      have bound : k < maxNesting := by
        apply h.nesting k name' attributes'
        rw [leveled_append, leveled_append, (leveled_of_not_isTag 0 noTag).2, leveled, levelAfter,
          leveled_append]
        simp [member]
      rwa [Nat.add_sub_cancel' (by decide)]
    obtain ⟨text, children, content⟩ := exists_content_of_balanced inside inner plain nests
    have spells := SpellsElement.element name attributes Element.isOf_ofTag content
    obtain ⟨beside, beside'⟩ :=
      h.isBeside_around (spells.content.foldl_levelAfter 0) noTag noTag'
    exact ⟨_, before, _, after, rfl, beside, spells, beside'⟩

/-- A row of events is a document iff it meets the conditions. -/
theorem exists_spellsDocument_iff {events : List Event} :
    (∃ root, SpellsDocument events root) ↔ IsDocument events := by
  constructor
  · rintro ⟨root, h⟩
    exact h.isDocument
  · intro h
    exact h.exists_spellsDocument

end PetriQuery.Document
