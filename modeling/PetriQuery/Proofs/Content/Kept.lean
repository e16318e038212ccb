import PetriQuery.Proofs.Grammar.Parts

/-!
# The content of an element

What is left of an element when everything that no reader looks at is taken out of it (`kept`): the
texts of few kinds, without the blanks that do not count; the settings of an `smc` and the name of a
`watch`; and those children that are looked at (`lookedAt`). Of a property these are the last child
of each kind that it is made of, and of a property that is marked as a reachability property the id
and the tags alone.
-/

set_option autoImplicit false

namespace PetriQuery

open Document (Attributes Element Tag)

namespace Document.Attributes

/-! ## Attributes -/

/-- The entries with one of the given keys. -/
def restrict (keys : List String) (attributes : Attributes) : Attributes :=
  ⟨attributes.entries.filter fun entry => entry.1 ∈ keys, attributes.sorted.filter _⟩

theorem get?_restrict (keys : List String) (attributes : Attributes) (key : String) :
    (attributes.restrict keys).get? key = if key ∈ keys then attributes.get? key else none := by
  rw [get?, restrict, List.find?_filter]
  split
  · next listed =>
    have same : (fun entry : String × String =>
        decide (decide (entry.1 ∈ keys) = true ∧ decide (entry.1 = key) = true))
          = fun entry => decide (entry.1 = key) := by
      funext entry
      by_cases equal : entry.1 = key
      · simp [equal, listed]
      · simp [equal]
    rw [same, get?]
  · next unlisted =>
    rw [Option.map_eq_none_iff, List.find?_eq_none]
    intro entry _ found
    simp only [decide_eq_true_eq] at found
    exact unlisted (found.2 ▸ found.1)

/-- A further entry is left out if its key is not one of the given ones. -/
theorem restrict_insert {keys : List String} {key : String} (unlisted : key ∉ keys) (value : String)
    (attributes : Attributes) :
    (attributes.insert key value).restrict keys = attributes.restrict keys := by
  apply ext_get?
  intro other
  rw [get?_restrict, get?_restrict, get?_insert]
  split
  · next listed =>
    rw [if_neg]
    rintro rfl
    exact unlisted listed
  · rfl

end Document.Attributes

namespace Grammar

/-! ## Content -/

/-- The attributes that make the settings of an `smc` element. -/
def settingKeys : List String :=
  ["time-bound", "step-bound", "false-positives", "false-negatives", "indifference", "confidence",
    "interval-width", "compare-to"]

/-- The keys of the attributes that are read of an element of a kind. -/
def readKeys : Tag → List String
  | .smc => settingKeys
  | .watch => ["name"]
  | _ => []

/-- What counts of the text of an element of a kind. -/
def keptText : Tag → String → String
  | .id, text | .integerConstant, text => Text.trim text
  | .place, text => Text.strip text
  | .isReachability, text => text
  | _, _ => ""

/-- The kinds of children of a property that count. Observations count beside settings only, and the
mark of a reachability property leaves nothing else but the id. -/
def countedTags (e : Element) : List Tag :=
  if isReachability e then [.id, .tags]
  else if (e.lastChild? .smc).isSome then [.id, .tags, .formula, .smc, .observations]
  else [.id, .tags, .formula]

/-- The children of a property that count: the last one of each kind. -/
def countedChildren (e : Element) : List Element :=
  (countedTags e).flatMap fun tag => (e.lastChild? tag).toList

/-- The children of an element that are looked at. -/
def lookedAt (e : Element) : List Element :=
  match e.tag with
  | .id | .isReachability | .integerConstant | .place | .smc | .other _ => []
  | .tags => e.children.filter fun child => child.tag = .isReachability
  | .observations => e.children.filter fun child => child.tag = .watch
  | .watch => if (e.get? "name").isSome then e.children else []
  | .property => countedChildren e
  | _ => e.children

/-- Whether some children of elements of the kind are passed over. -/
def isSelective : Tag → Bool
  | .id | .isReachability | .integerConstant | .place | .smc | .other _ | .tags | .observations
  | .watch | .property => true
  | _ => false

/-- Of other elements all children are looked at. -/
theorem lookedAt_of_not_isSelective {e : Element} (h : isSelective e.tag = false) :
    lookedAt e = e.children := by
  cases e with
  | mk tag text attributes children => cases tag <;> first | rfl | cases h

mutual

/-- The element with nothing in it that no reader looks at. -/
def kept : Element → Element
  | .mk tag text attributes children =>
    .mk tag (keptText tag text) (attributes.restrict (readKeys tag))
      (lookedAt (.mk tag text attributes (keptList children)))

/-- The elements of a list with nothing in them that no reader looks at. -/
def keptList : List Element → List Element
  | [] => []
  | child :: rest => kept child :: keptList rest

end

theorem keptList_eq_map (es : List Element) : keptList es = es.map kept := by
  induction es with
  | nil => rfl
  | cons e es ih => rw [keptList, ih, List.map_cons]

@[simp] theorem tag_kept (e : Element) : (kept e).tag = e.tag := by
  cases e
  rfl

@[simp] theorem name_kept (e : Element) : (kept e).name = e.name := by
  cases e
  rfl

theorem text_kept (e : Element) : (kept e).text = keptText e.tag e.text := by
  cases e
  rfl

theorem get?_kept (e : Element) (key : String) :
    (kept e).get? key = if key ∈ readKeys e.tag then e.get? key else none := by
  cases e with
  | mk tag text attributes children => exact Attributes.get?_restrict _ attributes key

theorem children_kept (e : Element) :
    (kept e).children
      = lookedAt (.mk e.tag e.text e.attributes (e.children.map kept)) := by
  cases e with
  | mk tag text attributes children =>
    rw [kept, keptList_eq_map]
    rfl

/-- Of a `watch` with a name all children are looked at. -/
theorem children_kept_of_named {e : Element} (tag : e.tag = .watch)
    (named : (e.get? "name").isSome = true) : (kept e).children = e.children.map kept := by
  rw [children_kept, tag, lookedAt]
  exact if_pos named

theorem filter_map_kept (tag : Tag) (es : List Element) :
    (es.map kept).filter (fun e => e.tag = tag) = (es.filter fun e => e.tag = tag).map kept := by
  rw [List.filter_map]
  congr 2
  funext e
  rw [Function.comp_apply, tag_kept]

/-- Of the children of an `observations` element those with the tag `watch` are looked at. -/
theorem children_kept_of_observations {e : Element} (tag : e.tag = .observations) :
    (kept e).children = (e.children.filter fun child => child.tag = .watch).map kept := by
  rw [children_kept, tag, lookedAt]
  exact filter_map_kept .watch e.children

/-- Of the children of a `tags` element those that may mark a property are looked at. -/
theorem children_kept_of_tags {e : Element} (tag : e.tag = .tags) :
    (kept e).children = (e.children.filter fun child => child.tag = .isReachability).map kept := by
  rw [children_kept, tag, lookedAt]
  exact filter_map_kept .isReachability e.children

/-! ## The children of a property that count -/

theorem lastOf_map_kept (tag : Tag) (es : List Element) :
    lastOf tag (es.map kept) = (lastOf tag es).map kept := by
  rw [lastOf, ← List.map_reverse, List.find?_map]
  congr 2
  funext e
  rw [Function.comp_apply, tag_kept]

theorem tag_of_lastOf {tag : Tag} {es : List Element} {e : Element} (h : lastOf tag es = some e) :
    e.tag = tag := by
  simpa using List.find?_some h

/-- Among one element for each of some kinds the one of a kind is found, if it is one of these
kinds. -/
theorem lastOf_flatMap {each : Tag → Option Element}
    (own : ∀ (tag : Tag) (e : Element), each tag = some e → e.tag = tag) (tag : Tag)
    (tags : List Tag) :
    lastOf tag (tags.flatMap fun tag => (each tag).toList)
      = if tag ∈ tags then each tag else none := by
  induction tags with
  | nil => rfl
  | cons other tags ih =>
    have first : lastOf tag (each other).toList = if tag = other then each other else none := by
      cases found : each other with
      | none => simp [lastOf]
      | some child => simp [lastOf, own other child found, eq_comm]
    rw [List.flatMap_cons, lastOf_append, ih, first]
    by_cases same : tag = other
    · subst same
      by_cases more : tag ∈ tags
      · simp [more]
      · simp [more]
    · simp [same]

/-- The marks in a `tags` element are looked at. -/
theorem marks_kept {tags : Element} (tag : tags.tag = .tags) : marks (kept tags) = marks tags := by
  rw [marks, marks, children_kept_of_tags tag, List.any_map, List.any_filter]
  congr 1
  funext child
  rw [Function.comp_apply, tag_kept, text_kept]
  by_cases mark : child.tag = .isReachability
  · simp [mark, keptText]
  · simp [mark]

/-- Elements whose last `tags` children have one content are marked alike. -/
theorem isReachability_eq_of_lastChild? {e e' : Element}
    (last : e'.lastChild? .tags = (e.lastChild? .tags).map kept) :
    isReachability e' = isReachability e := by
  rw [isReachability, isReachability, last]
  cases found : e.lastChild? .tags with
  | none => rfl
  | some tags => exact marks_kept (lastChild?_eq_some_iff.1 found).mem.2

/-- The content of a property is that of the children that count. -/
theorem children_kept_of_property {e : Element} (property : e.tag = .property) :
    (kept e).children
      = (countedTags e).flatMap fun tag => ((e.lastChild? tag).map kept).toList := by
  cases e with
  | mk tag text attributes children =>
    obtain rfl : tag = .property := property
    have last : ∀ tag, (Element.mk .property text attributes (children.map kept)).lastChild? tag
        = ((Element.mk .property text attributes children).lastChild? tag).map kept :=
      fun tag => lastOf_map_kept tag children
    have counted : countedTags (.mk .property text attributes (children.map kept))
        = countedTags (.mk .property text attributes children) := by
      rw [countedTags, countedTags, isReachability_eq_of_lastChild? (last .tags), last,
        Option.isSome_map]
    rw [children_kept]
    change countedChildren (.mk .property text attributes (children.map kept)) = _
    rw [countedChildren, counted]
    simp only [last]

/-- The children of a property that count are found in its content. -/
theorem lastChild?_kept {e : Element} (property : e.tag = .property) (tag : Tag) :
    (kept e).lastChild? tag
      = if tag ∈ countedTags e then (e.lastChild? tag).map kept else none := by
  change lastOf tag (kept e).children = _
  rw [children_kept_of_property property]
  apply lastOf_flatMap
  intro tag child found
  obtain ⟨original, last, rfl⟩ := Option.map_eq_some_iff.1 found
  rw [tag_kept]
  exact tag_of_lastOf last

end Grammar

end PetriQuery
