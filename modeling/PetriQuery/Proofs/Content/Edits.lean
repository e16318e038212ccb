import PetriQuery.Proofs.Content.Reading
import PetriQuery.Proofs.Session
import Mathlib.Logic.Relation

/-!
# Edits without effect

Documents are reformatted, annotated and extended. The edits of this module change a tree in a place
that no reader looks at, at any depth, so they leave the content of the tree (`Edit.kept_eq`) and
with it the queries and the failure that the tree gives (`reads_content_alone`).
-/

set_option autoImplicit false

namespace PetriQuery.Grammar

open Document (Attributes Element Tag)

/-! ## Edits -/

/-- Whether the text of elements of the kind is read. -/
def readsText : Tag → Bool
  | .id | .isReachability | .integerConstant | .place => true
  | _ => false

/-- Whether elements of the kind are read without their children. -/
def isChildless : Tag → Bool
  | .id | .isReachability | .integerConstant | .place | .smc | .other _ => true
  | _ => false

/-- Whether a child is passed over for its kind in an element of a kind. -/
def passesOver : Tag → Tag → Bool
  | .tags, child => child ≠ .isReachability
  | .observations, child => child ≠ .watch
  | .property, child => !isPart child
  | _, _ => false

/-- Changes of an element in a place that is not read, in one direction. -/
inductive Edit : Element → Element → Prop where
  /-- Another text, where none is read. -/
  | text {tag : Tag} {attributes : Attributes} {children : List Element} (text text' : String)
      (unread : readsText tag = false) :
      Edit (.mk tag text attributes children) (.mk tag text' attributes children)
  /-- Blanks around an id or a constant. -/
  | pad {tag : Tag} {text : String} {attributes : Attributes} {children : List Element}
      {before after : String} (trimmed : tag = .id ∨ tag = .integerConstant)
      (blank : Text.isAllBlank before = true) (blank' : Text.isAllBlank after = true) :
      Edit (.mk tag text attributes children)
        (.mk tag (before ++ text ++ after) attributes children)
  /-- Blanks anywhere in the name of a place. -/
  | spread {attributes : Attributes} {children : List Element} {blanks : String}
      (front back : String) (blank : Text.isAllBlank blanks = true) :
      Edit (.mk .place (front ++ back) attributes children)
        (.mk .place (front ++ blanks ++ back) attributes children)
  /-- A further attribute that is not read, or another value for it. -/
  | entry {tag : Tag} {text : String} {attributes : Attributes} {children : List Element}
      {key : String} (value : String) (unread : key ∉ readKeys tag) :
      Edit (.mk tag text attributes children)
        (.mk tag text (attributes.insert key value) children)
  /-- Other children, where none are read. -/
  | children {tag : Tag} {text : String} {attributes : Attributes}
      (children children' : List Element) (childless : isChildless tag = true) :
      Edit (.mk tag text attributes children) (.mk tag text attributes children')
  /-- Other children of a `watch` without a name. -/
  | unnamed {text : String} {attributes : Attributes} (children children' : List Element)
      (none : attributes.get? "name" = none) :
      Edit (.mk .watch text attributes children) (.mk .watch text attributes children')
  /-- A further child that is passed over for its kind. -/
  | passedOver {tag : Tag} {text : String} {attributes : Attributes} {front back : List Element}
      {child : Element} (passed : passesOver tag child.tag = true) :
      Edit (.mk tag text attributes (front ++ back))
        (.mk tag text attributes (front ++ child :: back))
  /-- A further child of a property before one of its kind. -/
  | superseded {text : String} {attributes : Attributes} {front back : List Element}
      {child later : Element} (behind : later ∈ back) (same : later.tag = child.tag) :
      Edit (.mk .property text attributes (front ++ back))
        (.mk .property text attributes (front ++ child :: back))
  /-- A further formula, settings or observations of a property that is marked. -/
  | unsupported {text : String} {attributes : Attributes} {front back : List Element}
      {child : Element}
      (marked : isReachability (.mk .property text attributes (front ++ back)) = true)
      (other : child.tag ≠ .id ∧ child.tag ≠ .tags) :
      Edit (.mk .property text attributes (front ++ back))
        (.mk .property text attributes (front ++ child :: back))
  /-- Further observations of a property without settings. -/
  | unobserved {text : String} {attributes : Attributes} {front back : List Element}
      {child : Element} (none : ∀ other ∈ front ++ back, other.tag ≠ .smc)
      (observations : child.tag = .observations) :
      Edit (.mk .property text attributes (front ++ back))
        (.mk .property text attributes (front ++ child :: back))
  /-- An edit of a child. -/
  | inside {tag : Tag} {text : String} {attributes : Attributes} {front back : List Element}
      {child child' : Element} (edit : Edit child child') :
      Edit (.mk tag text attributes (front ++ child :: back))
        (.mk tag text attributes (front ++ child' :: back))

/-! ## Edits leave the content -/

/-- What is looked at of an element does not depend on its text. -/
theorem lookedAt_text (tag : Tag) (text text' : String) (attributes : Attributes)
    (children : List Element) :
    lookedAt (.mk tag text attributes children) = lookedAt (.mk tag text' attributes children) := by
  cases tag <;> rfl

/-- Texts of which the same counts are one content. -/
theorem kept_text {tag : Tag} {text text' : String} (same : keptText tag text = keptText tag text')
    (attributes : Attributes) (children : List Element) :
    kept (.mk tag text attributes children) = kept (.mk tag text' attributes children) := by
  rw [kept, kept, same, lookedAt_text tag text text']

/-- What is looked at of an element does not depend on attributes that are not read. -/
theorem lookedAt_insert {tag : Tag} {key : String} (unread : key ∉ readKeys tag)
    (text value : String) (attributes : Attributes) (children : List Element) :
    lookedAt (.mk tag text (attributes.insert key value) children)
      = lookedAt (.mk tag text attributes children) := by
  cases tag with
  | watch =>
    have name : (attributes.insert key value).get? "name" = attributes.get? "name" := by
      rw [Attributes.get?_insert, if_neg]
      rintro rfl
      exact unread (List.mem_singleton_self _)
    rw [lookedAt, lookedAt]
    change (if ((attributes.insert key value).get? "name").isSome then _ else _) = _
    rw [name]
    rfl
  | _ => rfl

/-- A further child is not the last one of its kind before another one. -/
theorem lastOf_insert {tag : Tag} {front back : List Element} {child : Element}
    (later : child.tag = tag → ∃ other ∈ back, other.tag = tag) :
    lastOf tag (front ++ child :: back) = lastOf tag (front ++ back) := by
  have single : lastOf tag [child] = if child.tag = tag then some child else none := by
    by_cases same : child.tag = tag
    · simp [lastOf, same]
    · simp [lastOf, same]
  rw [lastOf_append, lastOf_append, ← List.singleton_append, lastOf_append, single]
  split
  · next same =>
    obtain ⟨other, member, ofTag⟩ := later same
    have found : (lastOf tag back).isSome = true := by
      rw [lastOf, List.find?_isSome]
      exact ⟨other, List.mem_reverse.2 member, by simp [ofTag]⟩
    obtain ⟨last, found⟩ := Option.isSome_iff_exists.1 found
    rw [found]
    rfl
  · rw [Option.or_none]

/-- A child of another kind is passed over. -/
theorem filter_passedOver {kind : Tag} {child : Element} (other : child.tag ≠ kind)
    (front back : List Element) :
    (front ++ child :: back).filter (fun e => e.tag = kind)
      = (front ++ back).filter fun e => e.tag = kind := by
  rw [List.filter_append, List.filter_cons_of_neg (by simpa using other), List.filter_append]

section Property

variable {text : String} {attributes : Attributes} {children children' front back : List Element}
  {child : Element}

/-- Whether a property is marked depends on its tags. -/
theorem isReachability_congr (tags : lastOf .tags children = lastOf .tags children') :
    isReachability (.mk .property text attributes children)
      = isReachability (.mk .property text attributes children') := by
  have last : (Element.mk .property text attributes children).lastChild? .tags
      = (Element.mk .property text attributes children').lastChild? .tags := tags
  rw [isReachability, isReachability, last]

/-- The kinds of children that count depend on the tags and the settings. -/
theorem countedTags_congr (tags : lastOf .tags children = lastOf .tags children')
    (smc : lastOf .smc children = lastOf .smc children') :
    countedTags (.mk .property text attributes children)
      = countedTags (.mk .property text attributes children') := by
  have last : (Element.mk .property text attributes children).lastChild? .smc
      = (Element.mk .property text attributes children').lastChild? .smc := smc
  rw [countedTags, countedTags, isReachability_congr tags, last]

/-- The content of a property is that of the last children of the kinds that count. -/
theorem kept_property
    (counted : countedTags (.mk .property text attributes children)
      = countedTags (.mk .property text attributes children'))
    (last : ∀ tag ∈ countedTags (.mk .property text attributes children),
      lastOf tag children = lastOf tag children') :
    kept (.mk .property text attributes children)
      = kept (.mk .property text attributes children') := by
  have looked : (kept (.mk .property text attributes children)).children
      = (kept (.mk .property text attributes children')).children := by
    rw [children_kept_of_property rfl, children_kept_of_property rfl, ← counted]
    apply List.flatMap_congr
    intro tag member
    change ((lastOf tag children).map kept).toList = ((lastOf tag children').map kept).toList
    rw [last tag member]
  exact congrArg (Element.mk .property _ _) looked

/-- A further child of a property does not count if it is no last one of a kind that counts. -/
theorem kept_property_insert
    (tags : child.tag = .tags → ∃ later ∈ back, later.tag = .tags)
    (smc : child.tag = .smc → ∃ later ∈ back, later.tag = .smc)
    (last : child.tag ∈ countedTags (.mk .property text attributes (front ++ back)) →
      ∃ later ∈ back, later.tag = child.tag) :
    kept (.mk .property text attributes (front ++ back))
      = kept (.mk .property text attributes (front ++ child :: back)) := by
  apply kept_property
  · exact countedTags_congr (lastOf_insert tags).symm (lastOf_insert smc).symm
  · intro tag counts
    refine (lastOf_insert ?_).symm
    rintro rfl
    exact last counts

/-- All kinds of children that count are parts of a property. -/
theorem isPart_of_mem_countedTags {e : Element} {tag : Tag} (h : tag ∈ countedTags e) :
    isPart tag = true := by
  have parts : ∀ tag ∈ [Tag.id, .tags, .formula, .smc, .observations], isPart tag = true := by
    decide
  apply parts
  rw [countedTags] at h
  split_ifs at h
  · exact (by decide : [Tag.id, .tags] ⊆ _) h
  · exact h
  · exact (by decide : [Tag.id, .tags, .formula] ⊆ _) h

/-- A marked property has no children that count but its id and its tags. -/
theorem countedTags_of_marked {e : Element} (marked : isReachability e = true) :
    countedTags e = [.id, .tags] := if_pos marked

end Property

/-- An edit leaves the content of an element. -/
theorem Edit.kept_eq {e e' : Element} (edit : Edit e e') : kept e = kept e' := by
  induction edit with
  | @text tag attributes children text text' unread =>
    apply kept_text
    cases tag <;> first | rfl | cases unread
  | @pad tag text attributes children before after trimmed blank blank' =>
    apply kept_text
    rcases trimmed with rfl | rfl
    · exact (Text.trim_padded blank blank' text).symm
    · exact (Text.trim_padded blank blank' text).symm
  | spread front back blank =>
    apply kept_text
    exact (Text.strip_insert blank front back).symm
  | @entry tag text attributes children key value unread =>
    rw [kept, kept, Attributes.restrict_insert unread, lookedAt_insert unread]
  | @children tag text attributes children children' childless =>
    rw [kept, kept]
    cases tag <;> first | rfl | cases childless
  | @unnamed text attributes children children' none =>
    have unnamed : ∀ es, lookedAt (.mk .watch text attributes es) = [] := by
      intro es
      rw [lookedAt]
      exact if_neg (by simp [Element.get?, Element.attributes, none])
    rw [kept, kept, unnamed, unnamed]
  | @passedOver tag text attributes front back child passed =>
    cases tag with
    | tags =>
      have other : (kept child).tag ≠ .isReachability := tag_kept child ▸ of_decide_eq_true passed
      rw [kept, kept, keptList_eq_map, keptList_eq_map, List.map_append, List.map_append,
        List.map_cons]
      exact congrArg (Element.mk _ _ _) (filter_passedOver other _ _).symm
    | observations =>
      have other : (kept child).tag ≠ .watch := tag_kept child ▸ of_decide_eq_true passed
      rw [kept, kept, keptList_eq_map, keptList_eq_map, List.map_append, List.map_append,
        List.map_cons]
      exact congrArg (Element.mk _ _ _) (filter_passedOver other _ _).symm
    | property =>
      have noPart : isPart child.tag = false := by simpa [passesOver] using passed
      apply kept_property_insert
      · intro tags
        rw [tags] at noPart
        cases noPart
      · intro smc
        rw [smc] at noPart
        cases noPart
      · intro counts
        rw [isPart_of_mem_countedTags counts] at noPart
        cases noPart
    | _ => cases passed
  | @superseded text attributes front back child later behind same =>
    apply kept_property_insert
    · exact fun tags => ⟨later, behind, same.trans tags⟩
    · exact fun smc => ⟨later, behind, same.trans smc⟩
    · exact fun _ => ⟨later, behind, same⟩
  | @unsupported text attributes front back child marked other =>
    obtain ⟨notId, notTags⟩ := other
    have tags : lastOf .tags (front ++ back) = lastOf .tags (front ++ child :: back) :=
      (lastOf_insert fun same => absurd same notTags).symm
    have marked' := (isReachability_congr tags).symm.trans marked
    apply kept_property
    · rw [countedTags_of_marked marked, countedTags_of_marked marked']
    · rw [countedTags_of_marked marked]
      intro tag counts
      refine (lastOf_insert fun same => absurd same ?_).symm
      rcases List.mem_pair.1 counts with rfl | rfl
      · exact notId
      · exact notTags
  | @unobserved text attributes front back child none observations =>
    have noSettings : (Element.mk .property text attributes (front ++ back)).lastChild? .smc
        = Option.none := lastChild?_eq_none_iff.2 none
    apply kept_property_insert
    · intro tags
      rw [observations] at tags
      cases tags
    · intro smc
      rw [observations] at smc
      cases smc
    · intro counts
      rw [observations, countedTags, noSettings] at counts
      split_ifs at counts with marked unset
      · exact absurd counts (by decide)
      · cases unset
      · exact absurd counts (by decide)
  | inside edit ih =>
    rw [kept, kept, keptList_eq_map, keptList_eq_map, List.map_append, List.map_append,
      List.map_cons, List.map_cons, ih]

/-! ## Sets of properties -/

/-- Changes of a `property-set` element that are not seen under the options. -/
inductive RootEdit (options : Options) : Element → Element → Prop where
  /-- An edit in a place that is not read. -/
  | edit {root root' : Element} (edit : Edit root root') : RootEdit options root root'
  /-- Another child at an index that is not selected. -/
  | unselected {tag : Tag} {text : String} {attributes : Attributes} {front back : List Element}
      (child child' : Element) (leftOut : options.selects front.length = false) :
      RootEdit options (.mk tag text attributes (front ++ child :: back))
        (.mk tag text attributes (front ++ child' :: back))

/-- An edit does not change what a set of properties gives. -/
theorem RootEdit.result_eq {options : Options} {root root' : Element}
    (edit : RootEdit options root root') :
    (propertySet options root).result = (propertySet options root').result := by
  cases edit with
  | edit edit => rw [← result_propertySet_kept, edit.kept_eq, result_propertySet_kept]
  | @unselected tag text attributes front back child child' leftOut =>
    refine result_propertySet_congr (Eq.refl tag) ?_ ?_
    · simp [Element.children]
    · intro index one other found found' selects
      have elsewhere : index ≠ front.length := by
        rintro rfl
        rw [leftOut] at selects
        cases selects
      have same : (front ++ child :: back)[index]? = (front ++ child' :: back)[index]? := by
        rcases Nat.lt_or_gt_of_ne elsewhere with before | behind
        · rw [List.getElem?_append_left before, List.getElem?_append_left before]
        · obtain ⟨more, rfl⟩ := Nat.exists_eq_add_of_lt behind
          rw [List.getElem?_append_right (by omega), List.getElem?_append_right (by omega)]
          have next : front.length + more + 1 - front.length = more + 1 := by omega
          rw [next, List.getElem?_cons_succ, List.getElem?_cons_succ]
      obtain rfl : one = other := Option.some.inj (found.symm.trans (same.trans found'))
      rfl

/-- **Documents are read by their documented content alone.** Two trees of which one arises from the
other by any number of edits, in either direction, give the same queries or the same failure, and a
session that reads either of them holds the same items afterwards. -/
theorem reads_content_alone (options : Options) (root root' : Element)
    (edits : Relation.EqvGen (RootEdit options) root root') :
    (propertySet options root).result = (propertySet options root').result
      ∧ ∀ session : Session, session.options = options →
        (session.addTree root).1 = (session.addTree root').1
          ∧ (session.addTree root).2.result = (session.addTree root').2.result := by
  have same : (propertySet options root).result = (propertySet options root').result := by
    induction edits with
    | rel _ _ edit => exact edit.result_eq
    | refl _ => rfl
    | symm _ _ _ ih => exact ih.symm
    | trans _ _ _ _ _ first second => exact first.trans second
  refine ⟨same, ?_⟩
  rintro session rfl
  rw [Session.addTree_eq, Session.addTree_eq]
  refine ⟨congrArg session.append same, ?_⟩
  exact Traced.result_bind_congr same fun _ => rfl

/-- A set of two properties, the first one with a note and with blanks around its id. -/
def annotated (child : Element) : Element :=
  .mk .propertySet "" .empty
    [.mk .property "" .empty
      [.mk (.other "note") "a tautology" .empty [], .mk .id (" " ++ "q0" ++ " ") .empty [],
        .mk .formula "" .empty [.mk .alwaysTrue "" .empty []]], child]

/-- The same set without the note and the blanks. -/
def plain (child : Element) : Element :=
  .mk .propertySet "" .empty [Session.sampleProperty "q0" (.mk .alwaysTrue "" .empty []), child]

theorem reads_content_alone_of_annotated :
    (propertySet ⟨[0], 1⟩ (annotated (.mk .property "" .empty []))).result
        = (propertySet ⟨[0], 1⟩ (plain (.mk .smc "" .empty []))).result
      ∧ (propertySet ⟨[0], 1⟩ (plain (.mk .smc "" .empty []))).result
        = .ok [⟨"q0", some (.truth true), .ok⟩, .skipped] := by
  refine ⟨(reads_content_alone ⟨[0], 1⟩ _ _ ?_).1, by rfl⟩
  let id (text : String) : Element := .mk .id text .empty []
  let body : Element := .mk .formula "" .empty [.mk .alwaysTrue "" .empty []]
  have note : Edit (.mk .property "" .empty [id (" " ++ "q0" ++ " "), body])
      (.mk .property "" .empty
        [.mk (.other "note") "a tautology" .empty [], id (" " ++ "q0" ++ " "), body]) :=
    @Edit.passedOver .property "" .empty [] _ _ rfl
  have blanks : Edit (.mk .property "" .empty [id "q0", body])
      (.mk .property "" .empty [id (" " ++ "q0" ++ " "), body]) :=
    @Edit.inside .property "" .empty [] _ _ _ (.pad (.inl rfl) (by rfl) (by rfl))
  have left : Relation.EqvGen (RootEdit ⟨[0], 1⟩) (annotated (.mk .property "" .empty []))
      (plain (.mk .property "" .empty [])) :=
    .trans _ _ _ (.symm _ _ (.rel _ _ (.edit (@Edit.inside .propertySet "" .empty [] _ _ _ note))))
      (.symm _ _ (.rel _ _ (.edit (@Edit.inside .propertySet "" .empty [] _ _ _ blanks))))
  refine .trans _ _ _ left (.rel _ _ ?_)
  exact @RootEdit.unselected ⟨[0], 1⟩ .propertySet "" .empty
    [Session.sampleProperty "q0" (.mk .alwaysTrue "" .empty [])] [] _ _ (by rfl)

end PetriQuery.Grammar
