import PetriQuery.Proofs.Grammar.Property
import PetriQuery.Proofs.Grammar.Root
import PetriQuery.Proofs.Text.Trimming

/-!
# The parts of a property

The children of a property are gone through once, and what is kept of them then are the last ones of
their kinds (`result_scan`). From the id, the tags and the formula that are kept it follows which
item a property has, as far as that does not depend on what the formula says
(`property_eq_ok_iff`), and why it has none (`property_eq_error_iff`).

The induction behind the first of these is on the children that are still to be gone through. It
says what is kept after those before them (`Parts.ofLast`), which one further child changes as it
changes the last ones of their kinds (`Parts.result_take`).
-/

set_option autoImplicit false

namespace PetriQuery

open Document (Element Tag)

/-- The last element of a kind. -/
def Grammar.lastOf (tag : Tag) (es : List Element) : Option Element :=
  es.reverse.find? fun e => e.tag = tag

/-- The last child of a kind. -/
def Document.Element.lastChild? (e : Element) (tag : Tag) : Option Element :=
  Grammar.lastOf tag e.children

namespace Grammar

open Query (Condition)
open Traced (result_bind_eq_error_iff result_bind_eq_ok_iff result_bind_of_ok)

/-! ## The children that count -/

/-- The child is the last one of its kind. -/
def IsLastChild (e : Element) (tag : Tag) (child : Element) : Prop :=
  ∃ before after, e.children = before ++ child :: after ∧ child.tag = tag
    ∧ ∀ other ∈ after, other.tag ≠ tag

/-- The last child of a kind is found. -/
theorem lastChild?_eq_some_iff {e child : Element} {tag : Tag} :
    e.lastChild? tag = some child ↔ IsLastChild e tag child := by
  rw [Element.lastChild?, lastOf, List.find?_eq_some_iff_append, IsLastChild]
  simp only [decide_eq_true_eq, Bool.not_eq_true', decide_eq_false_iff_not]
  constructor
  · rintro ⟨same, after, before, reversed, none⟩
    refine ⟨before.reverse, after.reverse, ?_, same, ?_⟩
    · rw [← List.reverse_reverse e.children, reversed, List.reverse_append, List.reverse_cons,
        List.append_assoc, List.singleton_append]
    · intro other member
      exact none other (List.mem_reverse.1 member)
  · rintro ⟨before, after, children, same, none⟩
    refine ⟨same, after.reverse, before.reverse, ?_, ?_⟩
    · rw [children, List.reverse_append, List.reverse_cons, List.append_assoc,
        List.singleton_append]
    · intro other member
      exact none other (List.mem_reverse.1 member)

/-- Nothing is found iff there is no child of the kind. -/
theorem lastChild?_eq_none_iff {e : Element} {tag : Tag} :
    e.lastChild? tag = none ↔ ∀ child ∈ e.children, child.tag ≠ tag := by
  rw [Element.lastChild?, lastOf, List.find?_eq_none]
  simp

/-- The last child of a kind is a child of that kind. -/
theorem IsLastChild.mem {e child : Element} {tag : Tag} (h : IsLastChild e tag child) :
    child ∈ e.children ∧ child.tag = tag := by
  obtain ⟨before, after, children, same, -⟩ := h
  exact ⟨children ▸ List.mem_append_right before List.mem_cons_self, same⟩

/-- Only one child is the last one of a kind. -/
theorem IsLastChild.unique {e child other : Element} {tag : Tag} (h : IsLastChild e tag child)
    (h' : IsLastChild e tag other) : child = other := by
  rw [← lastChild?_eq_some_iff] at h h'
  exact Option.some.inj (h.symm.trans h')

/-- The last element of two lists is that of the second one, if there is one. -/
theorem lastOf_append (tag : Tag) (as bs : List Element) :
    lastOf tag (as ++ bs) = (lastOf tag bs).or (lastOf tag as) := by
  rw [lastOf, List.reverse_append, List.find?_append]
  rfl

/-- One more element is the last one of its kind. -/
theorem lastOf_concat (tag : Tag) (es : List Element) (e : Element) :
    lastOf tag (es ++ [e]) = if e.tag = tag then some e else lastOf tag es := by
  rw [lastOf_append]
  by_cases same : e.tag = tag
  · simp [lastOf, same]
  · simp [lastOf, same]

/-! ## Going through the children -/

/-- The kinds of children that a property is made of. -/
def isPart : Tag → Bool
  | .id | .formula | .tags | .smc | .observations => true
  | _ => false

/-- The parts that the last elements of each kind are. -/
def Parts.ofLast (es : List Element) : Parts where
  id? := (lastOf .id es).map fun child => Text.trim child.text
  formula? := lastOf .formula es
  isSupported := !(lastOf .tags es).any marks
  smc? := lastOf .smc es
  observations? := lastOf .observations es

/-- One further child changes what is kept as it changes the last elements of each kind. -/
theorem Parts.result_take (es : List Element) (child : Element) :
    ((Parts.ofLast es).take child).result = .ok (.ofLast (es ++ [child])) := by
  cases kind : child.tag with
  | id | formula | tags | smc | observations => simp [take, ofLast, lastOf_concat, kind]
  | _ =>
    -- A child that is no part is the last one of none of the kinds that are kept.
    simp only [take, ofLast, lastOf_concat, kind]
    rfl

/-- So do all children that are still to be gone through. -/
theorem Parts.result_foldlM_take (es rest : List Element) :
    (rest.foldlM Parts.take (.ofLast es)).result = .ok (.ofLast (es ++ rest)) := by
  induction rest generalizing es with
  | nil => rw [List.append_nil, List.foldlM_nil, Traced.result_pure]
  | cons child rest ih =>
    rw [List.foldlM_cons, result_bind_of_ok _ (Parts.result_take es child), ih, List.append_assoc,
      List.singleton_append]

/-- The parts of a property. -/
def partsOf (e : Element) : Parts := .ofLast e.children

/-- **What is kept of the children of a property are the last ones of their kinds.** -/
theorem result_scan (e : Element) : (scan e).result = .ok (partsOf e) :=
  Parts.result_foldlM_take [] e.children

/-- The id of a property: the text of its last `id` child without blanks at its ends. -/
def propertyId? (e : Element) : Option String :=
  ((e.lastChild? .id).map fun child => Text.trim child.text).filter fun id => id ≠ ""

/-- Whether the last `tags` child marks the property as a reachability property. -/
def isReachability (e : Element) : Bool := (e.lastChild? .tags).any marks

section

variable (e : Element)

@[simp] theorem id?_partsOf :
    (partsOf e).id? = (e.lastChild? .id).map fun child => Text.trim child.text := rfl

@[simp] theorem formula?_partsOf : (partsOf e).formula? = e.lastChild? .formula := rfl

@[simp] theorem isSupported_partsOf : (partsOf e).isSupported = !isReachability e := rfl

@[simp] theorem smc?_partsOf : (partsOf e).smc? = e.lastChild? .smc := rfl

@[simp] theorem observations?_partsOf : (partsOf e).observations? = e.lastChild? .observations :=
  rfl

end

/-! ## Ids and marks -/

/-- The id of a property is the text of its last `id` child without the blanks at its ends. It is
not empty. -/
def HasId (e : Element) (id : String) : Prop :=
  ∃ child, IsLastChild e .id child ∧ Text.isAllBlank child.text = false ∧ id = Text.trim child.text

/-- The last `id` child is blank, or there is none. -/
def HasNoId (e : Element) : Prop :=
  ∀ child, IsLastChild e .id child → Text.isAllBlank child.text = true

/-- The last `tags` child has a child that marks the property as a reachability property. -/
def Marked (e : Element) : Prop :=
  ∃ tags, IsLastChild e .tags tags
    ∧ ∃ mark ∈ tags.children, mark.tag = .isReachability ∧ mark.text = "true"

/-- A property has its id. -/
theorem propertyId?_eq_some_iff {e : Element} {id : String} :
    propertyId? e = some id ↔ HasId e id := by
  simp only [propertyId?, Option.filter_eq_some_iff, Option.map_eq_some_iff,
    lastChild?_eq_some_iff, decide_eq_true_eq, HasId]
  constructor
  · rintro ⟨⟨child, last, rfl⟩, notEmpty⟩
    refine ⟨child, last, ?_, rfl⟩
    rw [ne_eq, Text.trim_eq_empty_iff] at notEmpty
    exact Bool.eq_false_iff.2 notEmpty
  · rintro ⟨child, last, notBlank, rfl⟩
    refine ⟨⟨child, last, rfl⟩, ?_⟩
    rw [ne_eq, Text.trim_eq_empty_iff]
    exact Bool.eq_false_iff.1 notBlank

/-- A property without an id has none. -/
theorem propertyId?_eq_none_iff {e : Element} : propertyId? e = none ↔ HasNoId e := by
  rw [Option.eq_none_iff_forall_ne_some, HasNoId]
  simp only [ne_eq, propertyId?_eq_some_iff, HasId]
  constructor
  · intro none child last
    by_contra notBlank
    exact none _ ⟨child, last, Bool.eq_false_iff.2 notBlank, rfl⟩
  · rintro blank id ⟨child, last, notBlank, -⟩
    rw [blank child last] at notBlank
    cases notBlank

/-- A property is taken for a reachability property iff it is marked as one. -/
theorem isReachability_iff {e : Element} : isReachability e = true ↔ Marked e := by
  rw [isReachability]
  cases found : e.lastChild? .tags with
  | none =>
    simp only [Option.any_none, Bool.false_eq_true, Marked, ← lastChild?_eq_some_iff, found,
      reduceCtorEq, false_and, exists_false]
  | some tags =>
    simp only [Option.any_some, marks, Marked, ← lastChild?_eq_some_iff, found, Option.some.injEq,
      exists_eq_left', List.any_eq_true, Bool.and_eq_true, decide_eq_true_eq]

/-- An id that a property has is not empty, and no blank is at its ends. -/
theorem HasId.isTrimmed {e : Element} {id : String} (h : HasId e id) :
    id ≠ "" ∧ Text.IsTrimmed id := by
  obtain ⟨child, -, notBlank, rfl⟩ := h
  rw [ne_eq, Text.trim_eq_empty_iff]
  exact ⟨Bool.eq_false_iff.1 notBlank, Text.isTrimmed_trim child.text⟩

/-- The parts are the last children of their kinds. -/
structure Parts.AreLast (parts : Parts) (e : Element) : Prop where
  id : ∀ id, parts.id? = some id ↔ ∃ child, IsLastChild e .id child ∧ id = Text.trim child.text
  formula : ∀ child, parts.formula? = some child ↔ IsLastChild e .formula child
  isSupported : parts.isSupported = true ↔ ¬ Marked e
  smc : ∀ child, parts.smc? = some child ↔ IsLastChild e .smc child
  observations : ∀ child, parts.observations? = some child ↔ IsLastChild e .observations child

theorem areLast_partsOf (e : Element) : (partsOf e).AreLast e where
  id id := by
    simp only [id?_partsOf, Option.map_eq_some_iff, lastChild?_eq_some_iff, @eq_comm _ _ id]
  formula child := lastChild?_eq_some_iff
  isSupported := by
    rw [isSupported_partsOf, Bool.not_eq_true', ← isReachability_iff, Bool.not_eq_true]
  smc child := lastChild?_eq_some_iff
  observations child := lastChild?_eq_some_iff

/-! ## Properties -/

/-- The property has the id, and is not marked: its formula is read. -/
def IsRead (e : Element) (id : String) : Prop := e.tag = .property ∧ HasId e id ∧ ¬ Marked e

/-- What a property is read to or refused for, apart from the records. -/
theorem result_property {limit : Nat} {e : Element} (tag : e.tag = .property) :
    (property limit e).result
      = match propertyId? e with
        | none => .error (.ofCause (.grammar .missingId))
        | some id =>
          if isReachability e then .ok ⟨id, none, .unsupported⟩
          else
            match e.lastChild? .formula with
            | none => .error (.ofCause (.grammar (.missingFormula id)))
            | some body =>
              (propertyQuery limit (partsOf e) id body).result.map fun query =>
                ⟨id, some query, .ok⟩ := by
  rw [property, if_neg (not_not.2 tag), result_bind_of_ok _ (result_scan e)]
  have kept : (partsOf e).id?.filter (fun id => id ≠ "") = propertyId? e := rfl
  simp only [kept, isSupported_partsOf, formula?_partsOf, Bool.not_not]
  cases propertyId? e with
  | none => rfl
  | some id =>
    dsimp only
    rw [result_bind_of_ok _ (by rfl)]
    split
    · rfl
    · cases e.lastChild? .formula with
      | none => rfl
      | some body =>
        change _ = (propertyQuery limit (partsOf e) id body).result.map fun query =>
          Item.mk id (some query) .ok
        rw [← Traced.result_map, map_eq_pure_bind]

/-- A property that is read comes to what its last formula comes to. -/
theorem result_property_of_isRead {limit : Nat} {e body : Element} {id : String}
    (isRead : IsRead e id) (last : IsLastChild e .formula body) :
    (property limit e).result
      = (propertyQuery limit (partsOf e) id body).result.map fun query =>
        ⟨id, some query, .ok⟩ := by
  obtain ⟨tag, hasId, unmarked⟩ := isRead
  have unmarked := Bool.eq_false_iff.2 (isReachability_iff.not.2 unmarked)
  rw [result_property tag, propertyId?_eq_some_iff.2 hasId, lastChild?_eq_some_iff.2 last]
  exact if_neg (Bool.eq_false_iff.1 unmarked)

/-- A property is read to its id: without a query if it is marked, and otherwise with the query that
its last formula denotes. -/
theorem property_eq_ok_iff {limit : Nat} {e : Element} {item : Item} :
    (property limit e).result = .ok item
      ↔ e.tag = .property ∧ ∃ id, HasId e id
        ∧ ((Marked e ∧ item = ⟨id, none, .unsupported⟩)
          ∨ (¬ Marked e ∧ ∃ body query, IsLastChild e .formula body
            ∧ (propertyQuery limit (partsOf e) id body).result = .ok query
            ∧ item = ⟨id, some query, .ok⟩)) := by
  by_cases tag : e.tag = .property
  · rw [result_property tag, and_iff_right tag]
    simp only [← propertyId?_eq_some_iff, ← isReachability_iff, ← lastChild?_eq_some_iff]
    cases propertyId? e with
    | none => simp
    | some id =>
      by_cases marked : isReachability e = true
      · simp [marked, eq_comm]
      · cases e.lastChild? .formula with
        | none => simp [marked]
        | some body =>
          simp only [marked, Bool.false_eq_true, if_false, map_eq_ok_iff, Option.some.injEq,
            exists_eq_left', false_and, false_or, not_false_eq_true, true_and]
          constructor
          · rintro ⟨query, read, rfl⟩
            exact ⟨body, query, rfl, read, rfl⟩
          · rintro ⟨_, query, rfl, read, rfl⟩
            exact ⟨query, read, rfl⟩
  · simp [property, tag, refuseGrammar]

/-- A property is refused for its kind, for its id, for its formula, or for what is in it. -/
theorem property_eq_error_iff {limit : Nat} {e : Element} {failure : Failure} :
    (property limit e).result = .error failure
      ↔ (e.tag ≠ .property ∧ failure = .ofCause (.grammar (.notProperty e.name)))
        ∨ (e.tag = .property ∧ HasNoId e ∧ failure = .ofCause (.grammar .missingId))
        ∨ ∃ id, IsRead e id
          ∧ (((∀ child ∈ e.children, child.tag ≠ .formula)
              ∧ failure = .ofCause (.grammar (.missingFormula id)))
            ∨ ∃ body, IsLastChild e .formula body
              ∧ (propertyQuery limit (partsOf e) id body).result = .error failure) := by
  by_cases tag : e.tag = .property
  · simp only [result_property tag, IsRead, tag, ← propertyId?_eq_none_iff,
      ← propertyId?_eq_some_iff, ← isReachability_iff, ← lastChild?_eq_some_iff,
      ← lastChild?_eq_none_iff]
    cases propertyId? e with
    | none => simp [@eq_comm _ failure]
    | some id =>
      by_cases marked : isReachability e = true
      · simp [marked]
      · cases e.lastChild? .formula with
        | none => simp [marked, @eq_comm _ failure]
        | some body => simp [marked, map_eq_error_iff]
  · simp [property, tag, refuseGrammar, IsRead, @eq_comm _ failure]

/-! ## Queries -/

/-- A property has its query: the one that the formula denotes without settings, if there is no
`smc` child, and otherwise the one that it denotes under the settings of the last `smc` child, with
the observables of the last `observations` child in place of its own, if there is one. -/
theorem propertyQuery_eq_ok_iff {limit : Nat} {e body : Element} {id : String}
    {query : Condition} :
    (propertyQuery limit (partsOf e) id body).result = .ok query
      ↔ ((∀ child ∈ e.children, child.tag ≠ .smc) ∧ (formula limit body).result = .ok query)
        ∨ ∃ smc made bare, IsLastChild e .smc smc ∧ (settings smc).result = .ok made
          ∧ (statisticalFormula limit made body).result = .ok bare
          ∧ (((∀ child ∈ e.children, child.tag ≠ .observations) ∧ bare = query)
            ∨ ∃ observations found, IsLastChild e .observations observations
              ∧ (observables limit observations).result = .ok found
              ∧ bare.withObservables? found = some query) := by
  unfold propertyQuery
  simp only [smc?_partsOf, observations?_partsOf, ← lastChild?_eq_some_iff,
    ← lastChild?_eq_none_iff]
  cases e.lastChild? .smc with
  | none => simp [mapError_eq_ok_iff]
  | some smc =>
    simp only [result_bind_eq_ok_iff, Traced.result_mapError, mapError_eq_ok_iff,
      Option.some.injEq, reduceCtorEq, false_and, false_or, exists_and_left, exists_eq_left']
    refine exists_congr fun made => and_congr_right fun _ => exists_congr fun bare =>
      and_congr_right fun _ => ?_
    cases e.lastChild? .observations with
    | none => simp [attachObservables]
    | some observations =>
      simp only [attachObservables, result_bind_eq_ok_iff, Traced.result_mapError,
        mapError_eq_ok_iff, Option.some.injEq, reduceCtorEq, false_and, false_or,
        exists_eq_left']
      refine exists_congr fun found => and_congr_right fun _ => ?_
      cases bare.withObservables? found <;> simp

/-- A fault that is put into a context is refused in that context. -/
theorem failureIn_eq_error_iff {α : Type} {context : Context} {x : Except Fault α}
    {failure : Failure} :
    x.mapError (failureIn context) = .error failure
      ↔ ∃ fault, x = .error fault ∧ failure = failureIn context fault := by
  rw [mapError_eq_error_iff]
  simp only [eq_comm]

/-- A statistical query gets the observables of an `observations` child, unless these are
refused. -/
theorem attachObservables_eq_error_iff {limit : Nat} {id : String} {query : Condition}
    (statistical : query.isStatistical = true) {child? : Option Element} {failure : Failure} :
    (attachObservables limit id query child?).result = .error failure
      ↔ ∃ observations fault, child? = some observations
        ∧ (observables limit observations).result = .error fault
        ∧ failure = failureIn (.observables id) fault := by
  cases child? with
  | none => simp [attachObservables]
  | some observations =>
    -- The query takes whatever is found, so nothing is refused behind the observables.
    have taken (found : List Query.Observable) :
        ∃ query', query.withObservables? found = some query' := by
      rw [← Option.isSome_iff_exists, query.isSome_withObservables? found]
      exact statistical
    rw [attachObservables, result_bind_eq_error_iff, Traced.result_mapError,
      failureIn_eq_error_iff]
    constructor
    · rintro (⟨fault, refused, rfl⟩ | ⟨found, -, refused⟩)
      · exact ⟨observations, fault, rfl, refused, rfl⟩
      · obtain ⟨query', given⟩ := taken found
        rw [given] at refused
        cases refused
    · rintro ⟨_, fault, same, refused, rfl⟩
      obtain rfl := Option.some.inj same
      exact .inl ⟨fault, refused, rfl⟩

/-- A property has no query for the first of the following that is refused: the settings of its last
`smc` child, its formula, and the observables of its last `observations` child. Without an `smc`
child that is its formula alone. -/
theorem propertyQuery_eq_error_iff {limit : Nat} {e body : Element} {id : String}
    {failure : Failure} :
    (propertyQuery limit (partsOf e) id body).result = .error failure
      ↔ ((∀ child ∈ e.children, child.tag ≠ .smc)
          ∧ ∃ fault, (formula limit body).result = .error fault
            ∧ failure = failureIn (.formula id) fault)
        ∨ ∃ smc, IsLastChild e .smc smc
          ∧ ((∃ fault, (settings smc).result = .error fault
              ∧ failure = failureIn (.settings id) fault)
            ∨ ∃ made, (settings smc).result = .ok made
              ∧ ((∃ fault, (statisticalFormula limit made body).result = .error fault
                  ∧ failure = failureIn (.formula id) fault)
                ∨ ∃ bare, (statisticalFormula limit made body).result = .ok bare
                  ∧ ∃ observations fault, IsLastChild e .observations observations
                    ∧ (observables limit observations).result = .error fault
                    ∧ failure = failureIn (.observables id) fault)) := by
  unfold propertyQuery
  simp only [smc?_partsOf, observations?_partsOf, ← lastChild?_eq_some_iff,
    ← lastChild?_eq_none_iff]
  cases e.lastChild? .smc with
  | none => simp [failureIn_eq_error_iff]
  | some smc =>
    simp only [result_bind_eq_error_iff, failureIn_eq_error_iff, Traced.result_mapError,
      mapError_eq_ok_iff, Option.some.injEq, reduceCtorEq, false_and, false_or, exists_eq_left']
    refine or_congr Iff.rfl (exists_congr fun made => and_congr_right fun _ => ?_)
    refine or_congr Iff.rfl (exists_congr fun bare => and_congr_right fun denoted => ?_)
    obtain ⟨-, -, ⟨goal, -⟩⟩ := statisticalFormula_eq_ok_iff.1 denoted
    exact attachObservables_eq_error_iff rfl

/-- A query is what the formula denotes: without settings as it stands, and otherwise under some
settings, with some observables attached that have been read. -/
theorem exists_denotes_of_propertyQuery {limit : Nat} {e body : Element} {id : String}
    {query : Condition} (read : (propertyQuery limit (partsOf e) id body).result = .ok query) :
    ((∀ child ∈ e.children, child.tag ≠ .smc) ∧ ∃ k ≤ limit, DenotesFormula body k query)
      ∨ ∃ smc goal made c watched, IsLastChild e .smc smc
        ∧ (∃ k ≤ limit, DenotesStatistical made body k (.probability goal made c []))
        ∧ query = .probability goal made c watched
        ∧ (watched = []
          ∨ ∃ observations, (observables limit observations).result = .ok watched) := by
  rcases propertyQuery_eq_ok_iff.1 read with ⟨none, denoted⟩ | ⟨smc, made, bare, last, -, denoted,
    attached⟩
  · exact Or.inl ⟨none, formula_eq_ok_iff.1 denoted⟩
  · obtain ⟨k, le, derivation⟩ := statisticalFormula_eq_ok_iff.1 denoted
    cases derivation with
    | @mk tag text attributes text' attributes' φ m c goal derivation =>
      rcases attached with ⟨-, rfl⟩ | ⟨observations, watched, -, found, attach⟩
      · exact Or.inr ⟨smc, goal, made, c, [], last, ⟨k, le, .mk goal derivation⟩, rfl, Or.inl rfl⟩
      · obtain rfl := Option.some.inj attach
        exact Or.inr ⟨smc, goal, made, c, watched, last, ⟨k, le, .mk goal derivation⟩, rfl,
          Or.inr ⟨observations, found⟩⟩

/-- The query of an item is the one that the last formula of the property denotes. -/
theorem HasItem.exists_propertyQuery {options : Options} {index : Nat} {child : Element}
    {item : Item} {query : Condition} (h : HasItem options index child item)
    (has : item.query? = some query) :
    ∃ body, IsLastChild child .formula body
      ∧ (propertyQuery options.maxDepth (partsOf child) item.id body).result = .ok query := by
  obtain ⟨selection, limit⟩ := options
  by_cases selected : Selected selection index
  · obtain ⟨-, id, -, ⟨-, rfl⟩ | ⟨-, body, query', last, read, rfl⟩⟩ :=
      property_eq_ok_iff.1 ((hasItem_of_selected selected).1 h)
    · cases has
    · obtain rfl := Option.some.inj has
      exact ⟨body, last, read⟩
  · obtain rfl := (hasItem_of_not_selected selected).1 h
    cases has

end Grammar

end PetriQuery
