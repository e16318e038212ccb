import PetriQuery.Proofs.Content.Kept

/-!
# The arrangement of a property

The parts of a property may stand in any order, among children of other kinds, and some of them may
stand there more than once. What the property is read to depends on the last part of each kind
alone (`result_property_of_lastOf`). So it stays the same when children of different kinds change
places (`Rearranged`) and when parts are left out that a later one of their kind follows
(`Pruned`).

What a property comes to is judged in a fixed order (`Outcome`): its id, its tags, whether there is
a formula, its settings, its formula, its observables. Each of these judgements is about the last
part of a kind, so it does not depend on where the parts stand (`last_of_each_kind_decides`).
-/

set_option autoImplicit false

namespace PetriQuery

open Document (Attributes Element Tag)

/-- The element with other children. -/
def Document.Element.withChildren (e : Element) (children : List Element) : Element :=
  .mk e.tag e.text e.attributes children

/-- The element without its children of a kind. -/
def Document.Element.without (e : Element) (tag : Tag) : Element :=
  e.withChildren (e.children.filter fun child => child.tag ≠ tag)

namespace Grammar

open Query (Condition)

/-! ## Arrangements -/

/-- The lists have the same members, and those of each kind stand in the same order. -/
def Rearranged (es es' : List Element) : Prop :=
  es.Perm es' ∧ ∀ tag, es.filter (fun e => e.tag = tag) = es'.filter fun e => e.tag = tag

/-- The second list is the first one without some of the parts that a later part of their kind
follows. -/
inductive Pruned : List Element → List Element → Prop
  | nil : Pruned [] []
  | keep {e : Element} {es es' : List Element} : Pruned es es' → Pruned (e :: es) (e :: es')
  | drop {e : Element} {es es' : List Element} :
      isPart e.tag = true → (∃ later ∈ es, later.tag = e.tag) → Pruned es es' → Pruned (e :: es) es'

/-- The last element of a kind is the last one of those of its kind. -/
theorem lastOf_eq_getLast? (tag : Tag) (es : List Element) :
    lastOf tag es = (es.filter fun e => e.tag = tag).getLast? := by
  rw [lastOf, ← List.head?_filter, List.filter_reverse, List.head?_reverse]

/-- A first element is the last one of its kind iff no later one is of that kind. -/
theorem lastOf_cons (tag : Tag) (e : Element) (es : List Element) :
    lastOf tag (e :: es) = (lastOf tag es).or (if e.tag = tag then some e else none) := by
  rw [← List.singleton_append, lastOf_append]
  by_cases same : e.tag = tag
  · simp [lastOf, same]
  · simp [lastOf, same]

/-- Some element of a kind is the last one. -/
theorem exists_lastOf {tag : Tag} {es : List Element} (has : ∃ e ∈ es, e.tag = tag) :
    ∃ e, lastOf tag es = some e := by
  obtain ⟨e, member, same⟩ := has
  rw [← Option.isSome_iff_exists, lastOf, List.find?_isSome]
  exact ⟨e, List.mem_reverse.2 member, decide_eq_true same⟩

/-- Elements of different kinds that change places leave the last one of each kind alone. -/
theorem Rearranged.lastOf_eq {es es' : List Element} (h : Rearranged es es') (tag : Tag) :
    lastOf tag es' = lastOf tag es := by
  rw [lastOf_eq_getLast?, lastOf_eq_getLast?, h.2 tag]

/-- Parts that are left out are not the last ones of their kinds. -/
theorem Pruned.lastOf_eq {es es' : List Element} (h : Pruned es es') (tag : Tag) :
    lastOf tag es' = lastOf tag es := by
  induction h with
  | nil => rfl
  | keep _ ih => rw [lastOf_cons, lastOf_cons, ih]
  | @drop e es es' _ later _ ih =>
    rw [lastOf_cons, ih]
    -- What is dropped is not the last one of its own kind, since a later one follows it.
    by_cases same : e.tag = tag
    · obtain ⟨last, found⟩ := exists_lastOf (same ▸ later)
      rw [found, Option.some_or]
    · rw [if_neg same, Option.or_none]

/-- An element without its children of a kind has no last one of that kind. -/
theorem lastChild?_without_self (e : Element) (tag : Tag) :
    (e.without tag).lastChild? tag = none := by
  apply lastChild?_eq_none_iff.2
  intro child member
  simpa using (List.mem_filter.1 member).2

/-- An element without its children of a kind has the same last ones of the other kinds. -/
theorem lastChild?_without (e : Element) {tag other : Tag} (different : other ≠ tag) :
    (e.without tag).lastChild? other = e.lastChild? other := by
  change lastOf other (e.children.filter fun child => child.tag ≠ tag) = lastOf other e.children
  rw [lastOf_eq_getLast?, lastOf_eq_getLast?, List.filter_filter]
  -- The two filters keep the same children, since none is of both kinds.
  congr 2
  funext child
  by_cases same : child.tag = other
  · simp [same, different]
  · simp [same]

section

variable {e child : Element} {tag other : Tag}

/-- A last child stays the last one of its kind when the children of another kind are left out. -/
theorem IsLastChild.without (h : IsLastChild e other child) (different : other ≠ tag) :
    IsLastChild (e.without tag) other child := by
  rw [← lastChild?_eq_some_iff, lastChild?_without e different]
  exact lastChild?_eq_some_iff.2 h

/-- What is the last child of its kind without those of another kind is so with them. -/
theorem IsLastChild.of_without (h : IsLastChild (e.without tag) other child)
    (different : other ≠ tag) : IsLastChild e other child := by
  rw [← lastChild?_eq_some_iff, ← lastChild?_without e different]
  exact lastChild?_eq_some_iff.2 h

end

/-! ## What the arrangement leaves alone -/

section

variable {e e' : Element}

/-- The same is kept of properties that are marked alike and have the same last ones of their other
parts. -/
theorem partsOf_congr (marked : isReachability e' = isReachability e)
    (last : ∀ tag, tag ≠ .tags → e'.lastChild? tag = e.lastChild? tag) :
    partsOf e' = partsOf e := by
  have fields (e : Element) : partsOf e
      = ⟨(e.lastChild? .id).map fun child => Text.trim child.text, e.lastChild? .formula,
        !isReachability e, e.lastChild? .smc, e.lastChild? .observations⟩ := rfl
  rw [fields, fields, marked, last .id (by decide), last .formula (by decide),
    last .smc (by decide), last .observations (by decide)]

/-- Properties of which the same is kept are read alike. -/
theorem result_property_congr (tag : e.tag = .property) (tag' : e'.tag = .property)
    (parts : partsOf e' = partsOf e) (limit : Nat) :
    (property limit e').result = (property limit e).result := by
  rw [property, property, if_neg (not_not.2 tag), if_neg (not_not.2 tag'),
    Traced.result_bind_of_ok _ (result_scan e'), Traced.result_bind_of_ok _ (result_scan e), parts]

/-- A property is read from the last one of each of its parts. -/
theorem result_property_of_lastOf (tag : e.tag = .property) {children : List Element}
    (last : ∀ tag, lastOf tag children = lastOf tag e.children) (limit : Nat) :
    (property limit (e.withChildren children)).result = (property limit e).result := by
  have tag' : (e.withChildren children).tag = .property := tag
  have marked : isReachability (e.withChildren children) = isReachability e := by
    have tags : (e.withChildren children).lastChild? .tags = e.lastChild? .tags := last .tags
    rw [isReachability, isReachability, tags]
  exact result_property_congr tag tag' (partsOf_congr marked fun tag _ => last tag) limit

/-- Where the last `tags` child marks nothing, no other one counts either. -/
theorem result_property_without_tags (tag : e.tag = .property) (unmarked : ¬ Marked e)
    (limit : Nat) :
    (property limit (e.withChildren (e.children.filter fun child => child.tag ≠ .tags))).result
      = (property limit e).result := by
  have tag' : (e.without .tags).tag = .property := tag
  have marked : isReachability (e.without .tags) = isReachability e := by
    rw [isReachability, lastChild?_without_self, Option.any_none,
      Bool.eq_false_iff.2 (isReachability_iff.not.2 unmarked)]
  apply result_property_congr tag tag' (partsOf_congr marked _)
  exact fun other different => lastChild?_without e different

end

/-! ## What a property comes to -/

/-- What a property comes to. The cases stand in the order in which the parts are judged, and each
of them says that no part before it has decided. -/
inductive Outcome (limit : Nat) (e : Element) : Except Failure Item → Prop
  | missingId : HasNoId e → Outcome limit e (.error ⟨[], .grammar .missingId⟩)
  | unsupported {id : String} :
      HasId e id → Marked e → Outcome limit e (.ok ⟨id, none, .unsupported⟩)
  | missingFormula {id : String} :
      IsRead e id → (∀ child ∈ e.children, child.tag ≠ .formula) →
      Outcome limit e (.error ⟨[], .grammar (.missingFormula id)⟩)
  | badSettings {id : String} {body smc : Element} {fault : Fault} :
      IsRead e id → IsLastChild e .formula body → IsLastChild e .smc smc →
      (settings smc).result = .error fault →
      Outcome limit e (.error ⟨[.settings id], .grammar fault⟩)
  | badFormula {id : String} {body : Element} {fault : Fault} :
      IsRead e id → IsLastChild e .formula body → (∀ child ∈ e.children, child.tag ≠ .smc) →
      (formula limit body).result = .error fault →
      Outcome limit e (.error ⟨[.formula id], .grammar fault⟩)
  | badStatistical {id : String} {body smc : Element} {made : Query.Sampling} {fault : Fault} :
      IsRead e id → IsLastChild e .formula body → IsLastChild e .smc smc →
      (settings smc).result = .ok made →
      (statisticalFormula limit made body).result = .error fault →
      Outcome limit e (.error ⟨[.formula id], .grammar fault⟩)
  | badObservables {id : String} {body smc observations : Element} {made : Query.Sampling}
      {bare : Condition} {fault : Fault} :
      IsRead e id → IsLastChild e .formula body → IsLastChild e .smc smc →
      (settings smc).result = .ok made → (statisticalFormula limit made body).result = .ok bare →
      IsLastChild e .observations observations →
      (observables limit observations).result = .error fault →
      Outcome limit e (.error ⟨[.observables id], .grammar fault⟩)
  | plain {id : String} {body : Element} {query : Condition} :
      IsRead e id → IsLastChild e .formula body → (∀ child ∈ e.children, child.tag ≠ .smc) →
      (formula limit body).result = .ok query →
      Outcome limit e (.ok ⟨id, some query, .ok⟩)
  | statistical {id : String} {body smc : Element} {made : Query.Sampling} {query : Condition} :
      IsRead e id → IsLastChild e .formula body → IsLastChild e .smc smc →
      (settings smc).result = .ok made → (statisticalFormula limit made body).result = .ok query →
      (∀ child ∈ e.children, child.tag ≠ .observations) →
      Outcome limit e (.ok ⟨id, some query, .ok⟩)
  | observing {id : String} {body smc observations : Element} {made : Query.Sampling}
      {goal : Query.RunGoal} {c : Condition} {found : List Query.Observable} :
      IsRead e id → IsLastChild e .formula body → IsLastChild e .smc smc →
      (settings smc).result = .ok made →
      (statisticalFormula limit made body).result = .ok (.probability goal made c []) →
      IsLastChild e .observations observations →
      (observables limit observations).result = .ok found →
      Outcome limit e (.ok ⟨id, some (.probability goal made c found), .ok⟩)

section

variable {limit : Nat} {e : Element}

/-- A formula that has a query is read alone, under settings, or under settings with observables. -/
theorem outcome_of_propertyQuery_ok {id : String} {body : Element} {query : Condition}
    (isRead : IsRead e id) (last : IsLastChild e .formula body)
    (read : (propertyQuery limit (partsOf e) id body).result = .ok query) :
    Outcome limit e (.ok ⟨id, some query, .ok⟩) := by
  rcases propertyQuery_eq_ok_iff.1 read with ⟨plain, denoted⟩ |
    ⟨smc, made, bare, lastSmc, given, denoted, ⟨none, rfl⟩ |
      ⟨observations, found, lastObservations, observed, attached⟩⟩
  · exact .plain isRead last plain denoted
  · exact .statistical isRead last lastSmc given denoted none
  · obtain ⟨k, -, ⟨goal, -⟩⟩ := statisticalFormula_eq_ok_iff.1 denoted
    obtain rfl := Option.some.inj attached
    exact .observing isRead last lastSmc given denoted lastObservations observed

/-- A formula that has no query is refused for its settings, for itself or for its observables. -/
theorem outcome_of_propertyQuery_error {id : String} {body : Element} {failure : Failure}
    (isRead : IsRead e id) (last : IsLastChild e .formula body)
    (refused : (propertyQuery limit (partsOf e) id body).result = .error failure) :
    Outcome limit e (.error failure) := by
  rcases propertyQuery_eq_error_iff.1 refused with ⟨plain, fault, failed, rfl⟩ |
    ⟨smc, lastSmc, ⟨fault, failed, rfl⟩ | ⟨made, given, ⟨fault, failed, rfl⟩ |
      ⟨bare, denoted, observations, fault, lastObservations, failed, rfl⟩⟩⟩
  · exact .badFormula isRead last plain failed
  · exact .badSettings isRead last lastSmc failed
  · exact .badStatistical isRead last lastSmc given failed
  · exact .badObservables isRead last lastSmc given denoted lastObservations failed

/-- **A property comes to what the first of its parts that decides says.** -/
theorem result_property_eq_iff (tag : e.tag = .property) {result : Except Failure Item} :
    (property limit e).result = result ↔ Outcome limit e result := by
  constructor
  · rintro rfl
    cases result : (property limit e).result with
    | ok item =>
      obtain ⟨-, id, hasId, ⟨marked, rfl⟩ | ⟨unmarked, body, query, last, read, rfl⟩⟩ :=
        property_eq_ok_iff.1 result
      · exact .unsupported hasId marked
      · exact outcome_of_propertyQuery_ok ⟨tag, hasId, unmarked⟩ last read
    | error failure =>
      rcases property_eq_error_iff.1 result with ⟨other, -⟩ | ⟨-, noId, rfl⟩ |
        ⟨id, isRead, ⟨none, rfl⟩ | ⟨body, last, refused⟩⟩
      · exact absurd tag other
      · exact .missingId noId
      · exact .missingFormula isRead none
      · exact outcome_of_propertyQuery_error isRead last refused
  · intro h
    cases h with
    | missingId noId => exact property_eq_error_iff.2 (.inr (.inl ⟨tag, noId, rfl⟩))
    | unsupported hasId marked =>
      exact property_eq_ok_iff.2 ⟨tag, _, hasId, .inl ⟨marked, rfl⟩⟩
    | missingFormula isRead none =>
      exact property_eq_error_iff.2 (.inr (.inr ⟨_, isRead, .inl ⟨none, rfl⟩⟩))
    -- Once there is a formula to read, the property comes to what its query comes to.
    | badSettings isRead last smc refused =>
      rw [result_property_of_isRead isRead last, propertyQuery_eq_error_iff.2
        (.inr ⟨_, smc, .inl ⟨_, refused, rfl⟩⟩)]
      rfl
    | badFormula isRead last plain refused =>
      rw [result_property_of_isRead isRead last, propertyQuery_eq_error_iff.2
        (.inl ⟨plain, _, refused, rfl⟩)]
      rfl
    | badStatistical isRead last smc given refused =>
      rw [result_property_of_isRead isRead last, propertyQuery_eq_error_iff.2
        (.inr ⟨_, smc, .inr ⟨_, given, .inl ⟨_, refused, rfl⟩⟩⟩)]
      rfl
    | badObservables isRead last smc given denoted observations refused =>
      rw [result_property_of_isRead isRead last, propertyQuery_eq_error_iff.2
        (.inr ⟨_, smc, .inr ⟨_, given, .inr ⟨_, denoted, _, _, observations, refused, rfl⟩⟩⟩)]
      rfl
    | plain isRead last plain denoted =>
      rw [result_property_of_isRead isRead last, propertyQuery_eq_ok_iff.2
        (.inl ⟨plain, denoted⟩)]
      rfl
    | statistical isRead last smc given denoted none =>
      rw [result_property_of_isRead isRead last, propertyQuery_eq_ok_iff.2
        (.inr ⟨_, _, _, smc, given, denoted, .inl ⟨none, rfl⟩⟩)]
      rfl
    | observing isRead last smc given denoted observations observed =>
      rw [result_property_of_isRead isRead last, propertyQuery_eq_ok_iff.2
        (.inr ⟨_, _, _, smc, given, denoted, .inr ⟨_, _, observations, observed, rfl⟩⟩)]
      rfl

/-- A property whose last `id` child is blank has no id. -/
theorem hasNoId_of_last {child : Element} (last : IsLastChild e .id child)
    (blank : Text.isAllBlank child.text = true) : HasNoId e := by
  intro other lastOther
  exact last.unique lastOther ▸ blank

end

/-- **The parts of a property count in no order, and of several of one kind the last one does.**
What is kept when the children have been gone through are the last ones of their kinds. So a
property is read to the same item or refused for the same failure when children of different kinds
change places, and when parts are left out that a later one of their kind follows. If its last `id`
child is blank it is refused for that, and if its last `tags` child marks nothing it is read as
without any, whatever stands before them. In general the last ones of its parts decide, the id
before the tags, these before the formula that may be missing, and then the settings, the formula
and the observables. -/
theorem last_of_each_kind_decides (options : Options) (e : Element) (tag : e.tag = .property) :
    (∃ parts, (scan e).result = .ok parts ∧ parts.AreLast e)
      ∧ (∀ children, Rearranged e.children children →
        (property options.maxDepth (e.withChildren children)).result
          = (property options.maxDepth e).result)
      ∧ (∀ children, Pruned e.children children →
          (property options.maxDepth (e.withChildren children)).result
            = (property options.maxDepth e).result)
      ∧ (∀ child, IsLastChild e .id child → Text.isAllBlank child.text = true →
          (property options.maxDepth e).result = .error ⟨[], .grammar .missingId⟩)
      ∧ (∀ tags, IsLastChild e .tags tags →
          (∀ mark ∈ tags.children, ¬ (mark.tag = .isReachability ∧ mark.text = "true")) →
          (property options.maxDepth e).result
            = (property options.maxDepth
                (e.withChildren (e.children.filter fun child => child.tag ≠ .tags))).result)
      ∧ ∀ result, (property options.maxDepth e).result = result
          ↔ Outcome options.maxDepth e result := by
  refine ⟨⟨_, result_scan e, areLast_partsOf e⟩, ?_, ?_, ?_, ?_, ?_⟩
  · intro children rearranged
    exact result_property_of_lastOf tag rearranged.lastOf_eq options.maxDepth
  · intro children pruned
    exact result_property_of_lastOf tag pruned.lastOf_eq options.maxDepth
  · intro child last blank
    exact (result_property_eq_iff tag).2 (.missingId (hasNoId_of_last last blank))
  · intro tags last marksNothing
    refine (result_property_without_tags tag ?_ options.maxDepth).symm
    rintro ⟨other, lastOther, mark, member, marks⟩
    obtain rfl := last.unique lastOther
    exact marksNothing mark member marks
  · exact fun result => result_property_eq_iff tag

/-- An `id` child. -/
def idOf (text : String) : Element := .mk .id text .empty []

/-- A `formula` child. -/
def formulaOf (tag : Tag) : Element := .mk .formula "" .empty [.mk tag "" .empty []]

/-- A `tags` child whose only mark has the text. -/
def tagsOf (text : String) : Element :=
  .mk .tags "" .empty [.mk .isReachability text .empty []]

/-- A property that has each of three parts twice. -/
def scattered : Element :=
  .mk .property "" .empty
    [formulaOf .deadlock, idOf "q1", tagsOf "true", .mk (.other "note") "" .empty [],
      formulaOf .alwaysTrue, tagsOf "false", idOf " q0 "]

/-- The children of `scattered`, those of each kind side by side. -/
def gathered : List Element :=
  [idOf "q1", idOf " q0 ", tagsOf "true", tagsOf "false", formulaOf .deadlock,
    formulaOf .alwaysTrue, .mk (.other "note") "" .empty []]

/-- Those children of `scattered` that no later one of their kind follows. -/
def remaining : List Element :=
  [.mk (.other "note") "" .empty [], formulaOf .alwaysTrue, tagsOf "false", idOf " q0 "]

theorem last_of_each_kind_decides_of_scattered :
    Rearranged scattered.children gathered ∧ Pruned scattered.children remaining
      ∧ (property 1 (scattered.withChildren gathered)).result
        = .ok ⟨"q0", some (.truth true), .ok⟩
      ∧ (property 1 (scattered.withChildren remaining)).result
        = .ok ⟨"q0", some (.truth true), .ok⟩
      ∧ (property 1 (scattered.withChildren
          (scattered.children.filter fun child => child.tag ≠ .tags))).result
        = .ok ⟨"q0", some (.truth true), .ok⟩
      ∧ (property 1 (scattered.withChildren (scattered.children ++ [idOf " "]))).result
        = .error ⟨[], .grammar .missingId⟩ := by
  have rearranged : Rearranged scattered.children gathered := by
    refine ⟨by decide, fun tag => ?_⟩
    cases tag <;> rfl
  have pruned : Pruned scattered.children remaining := by
    refine .drop rfl (by decide) (.drop rfl (by decide) (.drop rfl (by decide) ?_))
    exact .keep (.keep (.keep (.keep .nil)))
  have read : (property 1 scattered).result = .ok ⟨"q0", some (.truth true), .ok⟩ := by rfl
  obtain ⟨-, moved, left, -, unmarked, -⟩ := last_of_each_kind_decides ⟨[], 1⟩ scattered rfl
  obtain ⟨-, -, -, blank, -⟩ := last_of_each_kind_decides ⟨[], 1⟩
    (scattered.withChildren (scattered.children ++ [idOf " "])) rfl
  refine ⟨rearranged, pruned, (moved _ rearranged).trans read, (left _ pruned).trans read, ?_, ?_⟩
  · refine (unmarked (tagsOf "false") (lastChild?_eq_some_iff.1 (by rfl)) ?_).symm.trans read
    decide
  · exact blank (idOf " ") (lastChild?_eq_some_iff.1 (by rfl)) (by decide)

end Grammar

end PetriQuery
