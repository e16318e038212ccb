import PetriQuery.Proofs.Document.Spelling
import PetriQuery.Proofs.Success
import PetriQuery.Proofs.Text.Trimming

/-!
# The builder and the grammar

The builder reads the events one by one and keeps the open elements on a stack. It accepts exactly
the documents, and the tree it returns is the one that the document spells.

What the builder has after a row of events determines what the row is: outside of the root element,
inside of some open elements, each with the content read so far, or a whole document (`Built`). Each
step keeps that (`Built.step`). In the other direction, a content that is read inside of an open
element adds its text and its children to that element and leaves the rest as it is
(`result_foldlM_content`).
-/

set_option autoImplicit false

namespace PetriQuery.Document

open Markup (Event)

/-! ## What has been read -/

/-- The events open the elements of the frames, the innermost frame first. Each frame has the text
and the children of what has been read inside of its element, and inside of it there are as many
levels as the elements around it leave. -/
inductive Opened : List Event → List Frame → Prop
  | nil : Opened [] []
  | cons {events inside : List Event} {text : String} {children : List Element}
      {outer : List Frame} (name : String) (attributes : List (String × String)) :
      Opened events outer → outer.length < maxNesting →
      SpellsContent (maxNesting - (outer.length + 1)) inside text children →
      Opened (events ++ .start name attributes :: inside)
        (⟨.ofName name, text, .ofList attributes, children.reverse⟩ :: outer)

/-- What the events are that have led to what is built. -/
inductive Built : List Event → Builder → Prop
  | opened {before events : List Event} {frames : List Frame} :
      (∀ event ∈ before, IsBeside event) → Opened events frames →
      Built (before ++ events) ⟨frames, none⟩
  | ended {events : List Event} {root : Element} :
      SpellsDocument events root → Built events ⟨[], some root⟩

/-- A frame to which a content has been added. -/
def Frame.add (frame : Frame) (text : String) (children : List Element) : Frame :=
  ⟨frame.tag, frame.text ++ text, frame.attributes, children.reverse ++ frame.children⟩

/-- What is read inside of the innermost open element is added to its frame. -/
theorem Opened.add {events inside : List Event} {frame : Frame} {outer : List Frame} {text : String}
    {children : List Element} (h : Opened events (frame :: outer))
    (content : SpellsContent (maxNesting - (outer.length + 1)) inside text children) :
    Opened (events ++ inside) (frame.add text children :: outer) := by
  cases h with
  | cons name attributes around room sofar =>
    rw [List.append_assoc, List.cons_append, Frame.add, ← List.reverse_append]
    exact .cons name attributes around room (sofar.append content)

/-- Behind a document may stand what may stand beside the root element. -/
theorem SpellsDocument.append_beside {events : List Event} {event : Event} {root : Element}
    (h : SpellsDocument events root) (beside : IsBeside event) :
    SpellsDocument (events ++ [event]) root := by
  obtain ⟨before, one, after, rfl, beside', spells, beside''⟩ := h
  refine ⟨before, one, after ++ [event], by rw [List.append_assoc], beside', spells, ?_⟩
  exact List.forall_mem_append.2 ⟨beside'', List.forall_mem_singleton.2 beside⟩

/-! ## Steps -/

/-- An end tag with the name of the innermost open element puts that element where it belongs. -/
theorem result_leave_of_name {frame : Frame} {outer : List Frame} {root? : Option Element}
    {name : String} (named : frame.tag.name = name) :
    (Builder.leave ⟨frame :: outer, root?⟩ name).result
      = (Builder.place ⟨outer, root?⟩ frame.close).result := by
  rw [Builder.leave]
  simp only [if_pos named]
  rw [Traced.result_bind_of_ok _ (by rfl)]

/-- An end tag with another name is refused. -/
theorem result_leave_of_not_name {frame : Frame} {outer : List Frame} {root? : Option Element}
    {name : String} (other : frame.tag.name ≠ name) :
    (Builder.leave ⟨frame :: outer, root?⟩ name).result = .error (.unexpectedEnd name) := by
  simp only [Builder.leave, if_neg other, Traced.result_refuse]

namespace Built

variable {events : List Event} {b b' : Builder}

/-- What is read inside of an open element, which is added to the frame of that element. -/
theorem add {inside : List Event} {frame : Frame} {outer : List Frame} {root? : Option Element}
    {text : String} {children : List Element} (h : Built events ⟨frame :: outer, root?⟩)
    (content : SpellsContent (maxNesting - (outer.length + 1)) inside text children) :
    Built (events ++ inside) ⟨frame.add text children :: outer, root?⟩ := by
  cases h with
  | opened beside open_ =>
    rw [List.append_assoc]
    exact .opened beside (open_.add content)

/-- What may stand beside the root element changes nothing where no element is open. -/
theorem append_beside {event : Event} {root? : Option Element} (h : Built events ⟨[], root?⟩)
    (beside : IsBeside event) : Built (events ++ [event]) ⟨[], root?⟩ := by
  cases h with
  | opened beside' open_ =>
    cases open_
    rw [List.append_nil, ← List.append_nil (_ ++ _)]
    exact .opened (List.forall_mem_append.2 ⟨beside', List.forall_mem_singleton.2 beside⟩) .nil
  | ended document => exact .ended (document.append_beside beside)

/-- What may stand beside the root element and adds nothing to an element changes nothing. -/
theorem append_remark {event : Event} (h : Built events b) (beside : IsBeside event)
    (content : ∀ levels, SpellsContent levels [event] "" []) : Built (events ++ [event]) b := by
  obtain ⟨opened, root?⟩ := b
  cases opened with
  | nil => exact h.append_beside beside
  | cons frame outer =>
    have added := h.add (content _)
    rwa [Frame.add, String.append_empty] at added

/-- An element that is put where it belongs has been read there. -/
theorem place {one : List Event} {e : Element} (h : Built events b)
    (spells : SpellsElement (maxNesting - b.opened.length) one e)
    (placed : (b.place e).result = .ok b') : Built (events ++ one) b' := by
  obtain ⟨opened, root?⟩ := b
  cases opened with
  | nil =>
    cases h with
    | ended document => cases placed
    | opened beside open_ =>
      cases open_
      cases placed
      exact .ended ⟨_, one, [], by rw [List.append_nil, List.append_nil], beside, spells, nofun⟩
  | cons frame outer =>
    cases placed
    have added := h.add spells.content
    rw [Frame.add, String.append_empty] at added
    exact added

/-- A start tag opens an element. -/
theorem start {name : String} {attributes : List (String × String)} (h : Built events b)
    (entered : (b.enter (.ofTag name attributes)).result = .ok b') :
    Built (events ++ [.start name attributes]) b' := by
  unfold Builder.enter at entered
  rw [Traced.result_bind_of_ok _ (by rfl)] at entered
  split_ifs at entered with second deep
  · cases entered
  · cases entered
  · cases entered
    cases h with
    | opened beside open_ =>
      have room := Nat.lt_of_not_le deep
      rw [List.append_assoc]
      exact .opened beside (.cons name attributes open_ room .nil)
    | ended document => exact absurd rfl second

/-- An end tag ends the innermost open element, whose name it has. -/
theorem close {name : String} (h : Built events b) (left : (b.leave name).result = .ok b') :
    Built (events ++ [.close name]) b' := by
  cases h with
  | ended document => cases left
  | opened beside open_ =>
    cases open_ with
    | nil => cases left
    | @cons events inside text children outer name' attributes around room content =>
      by_cases same : (Tag.ofName name').name = name
      · rw [result_leave_of_name same, Frame.close, List.reverse_reverse] at left
        rw [Tag.name_ofName] at same
        subst same
        have spells : SpellsElement (maxNesting - outer.length)
            (.start name' attributes :: (inside ++ [.close name']))
            (.ofTag name' attributes text children) := by
          have room' : maxNesting - outer.length = maxNesting - (outer.length + 1) + 1 := by omega
          rw [room']
          exact .element name' attributes Element.isOf_ofTag content
        have built := (Built.opened beside around).place spells left
        rw [List.append_assoc] at built
        rwa [List.append_assoc, List.append_assoc, List.cons_append]
      · rw [result_leave_of_not_name same] at left
        cases left

/-- Every step keeps what is built in line with what has been read. -/
theorem step {event : Event} (h : Built events b) (taken : (b.step event).result = .ok b') :
    Built (events ++ [event]) b' := by
  obtain ⟨opened, root?⟩ := b
  cases event with
  | start name attributes => exact h.start taken
  | close name => exact h.close taken
  | empty name attributes =>
    rw [Builder.step, Traced.result_bind_of_ok _ (by rfl)] at taken
    exact h.place (.empty name attributes Element.isOf_ofTag) taken
  | text content =>
    cases opened with
    | nil =>
      simp only [Builder.step, Builder.write?] at taken
      split_ifs at taken with blank
      · cases taken
        exact h.append_beside (Text.isAllBlank_iff.1 blank)
      · cases taken
    | cons frame outer =>
      cases taken
      have added := h.add (.text content .nil)
      rwa [String.empty_append] at added
  | cdata content =>
    cases opened with
    | nil => cases taken
    | cons frame outer =>
      cases taken
      have added := h.add (.cdata content .nil)
      rwa [String.empty_append] at added
  | comment =>
    cases taken
    exact h.append_remark trivial fun _ => .comment .nil
  | declaration =>
    cases taken
    exact h.append_remark trivial fun _ => .declaration .nil
  | instruction => cases taken
  | doctype => cases taken

/-- Every run does. -/
theorem run {more : List Event} (h : Built events b)
    (taken : (more.foldlM Builder.step b).result = .ok b') : Built (events ++ more) b' := by
  induction more generalizing events b with
  | nil =>
    cases taken
    rwa [List.append_nil]
  | cons event more ih =>
    rw [List.foldlM_cons, Traced.result_bind_eq_ok_iff] at taken
    obtain ⟨between, first, rest⟩ := taken
    have built := ih (h.step first) rest
    rwa [List.append_assoc, List.singleton_append] at built

/-- What a run from nothing has built is what its events are. -/
theorem of_run (taken : (events.foldlM Builder.step .initial).result = .ok b) : Built events b := by
  have nothing : Built ([] ++ []) .initial := .opened (List.forall_mem_nil _) .nil
  exact nothing.run taken

end Built

/-! ## Runs along documents -/

variable {b b' : Builder}

/-- A run along two rows is a run along the second one from where the first one ends. -/
theorem result_foldlM_append {events events' : List Event}
    (run : (events.foldlM Builder.step b).result = .ok b') :
    ((events ++ events').foldlM Builder.step b).result
      = (events'.foldlM Builder.step b').result := by
  rw [List.foldlM_append, Traced.result_bind_of_ok _ run]

/-- A run along a row is a run along the rest from where the first step ends. -/
theorem result_foldlM_cons {event : Event} {events : List Event}
    (step : (b.step event).result = .ok b') :
    ((event :: events).foldlM Builder.step b).result = (events.foldlM Builder.step b').result := by
  rw [List.foldlM_cons, Traced.result_bind_of_ok _ step]

/-- A run along one event is a step. -/
theorem result_foldlM_singleton (event : Event) (b : Builder) :
    ([event].foldlM Builder.step b).result = (b.step event).result := by
  rw [List.foldlM_cons]
  exact congrArg Traced.result (bind_pure (b.step event))

/-- Where no element is open, what may stand beside the root element is passed over. -/
theorem result_foldlM_beside {events : List Event} (beside : ∀ event ∈ events, IsBeside event)
    (root? : Option Element) :
    (events.foldlM Builder.step ⟨[], root?⟩).result = .ok ⟨[], root?⟩ := by
  induction events with
  | nil => rfl
  | cons event events ih =>
    obtain ⟨head, tail⟩ := List.forall_mem_cons.1 beside
    have step : (Builder.step ⟨[], root?⟩ event).result = .ok ⟨[], root?⟩ := by
      cases event with
      | text content =>
        have blank : Text.isAllBlank content = true := Text.isAllBlank_iff.2 head
        simp only [Builder.step, Builder.write?, blank, if_true, Traced.result_pure]
      | comment | declaration => rfl
      | _ => cases head
    rw [result_foldlM_cons step, ih tail]

/-- A start tag, what is inside and the end tag put an element where it belongs, if the run along
what is inside adds it to the frame of the element. -/
theorem result_foldlM_element {inside : List Event} {text : String} {children : List Element}
    (name : String) (attributes : List (String × String))
    (first : b.opened = [] → b.root? = none) (room : b.opened.length < maxNesting)
    (run : (inside.foldlM Builder.step ⟨.ofTag name attributes :: b.opened, b.root?⟩).result
      = .ok ⟨(Frame.ofTag name attributes).add text children :: b.opened, b.root?⟩) :
    ((.start name attributes :: (inside ++ [.close name])).foldlM Builder.step b).result
      = (b.place (.ofTag name attributes text children)).result := by
  have notSecond : ¬(b.opened.isEmpty && b.root?.isSome) = true := by
    rw [Bool.and_eq_true, List.isEmpty_iff, Option.isSome_iff_ne_none]
    rintro ⟨outside, ended⟩
    exact ended (first outside)
  have entered : (b.step (.start name attributes)).result
      = .ok ⟨.ofTag name attributes :: b.opened, b.root?⟩ := by
    rw [Builder.step, Builder.enter, Traced.result_bind_of_ok _ (by rfl), if_neg notSecond,
      if_neg (Nat.not_le_of_lt room), Traced.result_pure]
  have closed : ((Frame.ofTag name attributes).add text children).close
      = .ofTag name attributes text children := by
    simp only [Frame.add, Frame.ofTag, Frame.close, String.empty_append, List.append_nil,
      List.reverse_reverse, Element.ofTag]
  have named : ((Frame.ofTag name attributes).add text children).tag.name = name :=
    Tag.name_ofName name
  rw [result_foldlM_cons entered, result_foldlM_append run, result_foldlM_singleton, Builder.step,
    result_leave_of_name named, closed]

/-- A content that is read inside of an open element is added to the frame of that element, if the
elements that are open leave the levels that it needs. -/
theorem result_foldlM_content {levels : Nat} {events : List Event} {text : String}
    {children : List Element} (h : SpellsContent levels events text children) (frame : Frame)
    (outer : List Frame) (root? : Option Element) (room : outer.length + 1 + levels ≤ maxNesting) :
    (events.foldlM Builder.step ⟨frame :: outer, root?⟩).result
      = .ok ⟨frame.add text children :: outer, root?⟩ := by
  induction h generalizing frame outer root? with
  | nil =>
    rw [Frame.add, String.append_empty]
    rfl
  | text content _ ih | cdata content _ ih =>
    rw [result_foldlM_append (ih frame outer root? room), result_foldlM_singleton]
    simp only [Builder.step, Builder.write?, Frame.add, String.append_assoc, Traced.result_pure]
  | comment _ ih | declaration _ ih =>
    rw [result_foldlM_append (ih frame outer root? room), result_foldlM_singleton]
    rfl
  | empty name attributes own _ ih =>
    obtain rfl := Element.isOf_iff.1 own
    rw [result_foldlM_append (ih frame outer root? room), result_foldlM_singleton, Frame.add,
      Frame.add, List.reverse_append]
    rfl
  | @element levels events text children inside text' children' e name attributes own _ _ ih ih' =>
    obtain rfl := Element.isOf_iff.1 own
    have run := ih' (.ofTag name attributes) (frame.add text children :: outer) root?
      (by rw [List.length_cons]; omega)
    have inner : (Builder.mk (frame.add text children :: outer) root?).opened = [] → root? = none :=
      fun outside => absurd outside (List.cons_ne_nil _ _)
    have deep : (frame.add text children :: outer).length < maxNesting := by
      rw [List.length_cons]
      omega
    rw [result_foldlM_append (ih frame outer root? room),
      result_foldlM_element name attributes inner deep run, Frame.add, Frame.add,
      List.reverse_append]
    rfl

/-- An element that is read where no element has been read yet becomes the root element. -/
theorem result_foldlM_root {events : List Event} {root : Element}
    (h : SpellsElement maxNesting events root) :
    (events.foldlM Builder.step ⟨[], none⟩).result = .ok ⟨[], some root⟩ := by
  generalize full : maxNesting = levels at h
  cases h with
  | empty name attributes own =>
    obtain rfl := Element.isOf_iff.1 own
    rfl
  | @element levels inside text children _ name attributes own content =>
    obtain rfl := Element.isOf_iff.1 own
    have run := result_foldlM_content content (.ofTag name attributes) [] none
      (by rw [List.length_nil]; omega)
    have room : (Builder.mk [] none).opened.length < maxNesting := by
      rw [full]
      exact Nat.succ_pos levels
    rw [result_foldlM_element name attributes (fun _ => rfl) room run]
    rfl

/-! ## Documents -/

/-- What is returned of a row of events that can be decoded. -/
theorem result_ofEvents (events : List Event) :
    (Element.ofEvents ⟨events, none⟩).result
      = (events.foldlM Builder.step .initial >>= Builder.finish).result := by
  rw [Element.ofEvents, Traced.foldFrom_eq_foldlM]

/-- The tree that is returned is the one that the events spell. -/
theorem ofEvents_eq_ok_iff {events : List Event} {root : Element} :
    (Element.ofEvents ⟨events, none⟩).result = .ok root ↔ SpellsDocument events root := by
  rw [result_ofEvents]
  constructor
  · intro h
    rw [Traced.result_bind_eq_ok_iff] at h
    obtain ⟨⟨opened, root?⟩, run, finished⟩ := h
    cases Built.of_run run with
    | ended document =>
      cases finished
      exact document
    | opened =>
      -- Either an element is open at the end or nothing but blank text has been read.
      cases opened with
      | nil => cases finished
      | cons frame outer => cases finished
  · rintro ⟨before, one, after, rfl, beside, spells, beside'⟩
    have run : ((before ++ one ++ after).foldlM Builder.step .initial).result
        = .ok ⟨[], some root⟩ := by
      rw [Builder.initial, List.append_assoc,
        result_foldlM_append (result_foldlM_beside beside none),
        result_foldlM_append (result_foldlM_root spells),
        result_foldlM_beside beside' (some root)]
    rw [Traced.result_bind_of_ok _ run]
    rfl

/-- Whether an event says nothing about the tree wherever it stands. -/
def isRemark : Event → Bool
  | .comment | .declaration => true
  | _ => false

/-- Without its comments and declarations a row takes the builder to where it takes it with them. -/
theorem foldlM_filter_remarks (events : List Event) (b : Builder) :
    (events.filter (fun event => !isRemark event)).foldlM Builder.step b
      = events.foldlM Builder.step b := by
  induction events generalizing b with
  | nil => rfl
  | cons event events ih =>
    cases event with
    | comment | declaration =>
      rw [List.filter_cons_of_neg (by decide), List.foldlM_cons, ih]
      rfl
    | _ =>
      rw [List.filter_cons_of_pos (by rfl), List.foldlM_cons, List.foldlM_cons]
      exact congrArg _ (funext ih)

/-- The builder accepts exactly the rows of events that meet the conditions on documents, and for
these it returns the only tree that the row spells. Comments and declarations change nothing. -/
theorem ofEvents_reads_documents (events : List Event) :
    ((∃ root, (Element.ofEvents ⟨events, none⟩).result = .ok root) ↔ IsDocument events)
    ∧ (∀ root, (Element.ofEvents ⟨events, none⟩).result = .ok root ↔ SpellsDocument events root)
    ∧ (∀ root root', SpellsDocument events root → SpellsDocument events root' → root = root')
    ∧ Element.ofEvents ⟨events.filter (fun event => !isRemark event), none⟩
      = Element.ofEvents ⟨events, none⟩ := by
  refine ⟨?_, fun root => ofEvents_eq_ok_iff, ?_, ?_⟩
  · rw [← exists_spellsDocument_iff]
    exact exists_congr fun root => ofEvents_eq_ok_iff
  · intro root root' spells spells'
    have returned := ofEvents_eq_ok_iff.2 spells
    rw [ofEvents_eq_ok_iff.2 spells'] at returned
    exact (Except.ok.inj returned).symm
  · rw [Element.ofEvents, Element.ofEvents, Traced.foldFrom_eq_foldlM, Traced.foldFrom_eq_foldlM,
      foldlM_filter_remarks]

end PetriQuery.Document
