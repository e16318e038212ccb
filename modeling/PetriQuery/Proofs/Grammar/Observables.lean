import PetriQuery.Proofs.Grammar.Arrangement
import PetriQuery.Proofs.Grammar.Settings
import PetriQuery.Proofs.Grammar.Watches

/-!
# The observables of a property

A statistical query has the observables of the last `observations` child of its property, and none
without such a child. They are the only thing about the query that this child decides: the property
is refused for it, or the query is the one without it but for its observables
(`observables_are_attached_in_order`).
-/

set_option autoImplicit false

namespace PetriQuery.Grammar

open Document (Element Tag)
open Query (Condition Expr RunGoal Sampling)
open Traced (result_bind_of_ok)

/-! ## Children that are passed over -/

/-- A child that is no watch with a name is passed over. -/
theorem namedWatches_of_passedOver {e watch : Element} {before after : List Element}
    (children : e.children = before ++ watch :: after)
    (passed : watch.tag ≠ .watch ∨ watch.get? "name" = none) :
    namedWatches e = namedWatches (e.withChildren (before ++ after)) := by
  have skipped : ([watch].filter fun child => child.tag = .watch).filterMap (fun watch =>
      (watch.get? "name").map fun name => (name, watch)) = [] := by
    rcases passed with other | unnamed
    · simp [other]
    · by_cases same : watch.tag = .watch
      · simp [same, unnamed]
      · simp [same]
  change _ = ((before ++ after).filter fun child => child.tag = .watch).filterMap _
  rw [namedWatches, children, ← List.singleton_append, List.filter_append, List.filter_append,
    List.filter_append, List.filterMap_append, List.filterMap_append, List.filterMap_append,
    skipped, List.nil_append]

/-! ## Queries with observables -/

/-- The property has the id and is read as the statistical query, but for its observables: its last
`smc` child makes the settings, and its last `formula` child denotes the query under them. -/
structure Samples (limit : Nat) (e : Element) (id : String) (goal : RunGoal) (made : Sampling)
    (c : Condition) : Prop where
  isRead : IsRead e id
  settings : ∃ smc, IsLastChild e .smc smc ∧ Makes smc made
  formula : ∃ body, IsLastChild e .formula body
    ∧ ∃ k ≤ limit, DenotesStatistical made body k (.probability goal made c [])

namespace Samples

variable {limit : Nat} {e : Element} {id : String} {goal : RunGoal} {made : Sampling}
  {c : Condition}

/-- The query gets its observables last, when nothing else can be refused any more. -/
theorem result_propertyQuery (h : Samples limit e id goal made c) :
    ∃ body, IsLastChild e .formula body
      ∧ (propertyQuery limit (partsOf e) id body).result
        = (attachObservables limit id (.probability goal made c [])
            (e.lastChild? .observations)).result := by
  obtain ⟨smc, lastSmc, makes⟩ := h.settings
  obtain ⟨body, lastFormula, denotes⟩ := h.formula
  refine ⟨body, lastFormula, ?_⟩
  have given : ((Grammar.settings smc).mapError (failureIn (.settings id))).result
      = .ok made := by
    rw [Traced.result_mapError, settings_eq_ok_iff.2 makes]
    rfl
  have bare : ((statisticalFormula limit made body).mapError (failureIn (.formula id))).result
      = .ok (.probability goal made c []) := by
    rw [Traced.result_mapError, statisticalFormula_eq_ok_iff.2 denotes]
    rfl
  rw [propertyQuery, smc?_partsOf, lastChild?_eq_some_iff.2 lastSmc]
  exact (result_bind_of_ok _ given).trans (result_bind_of_ok _ bare)

/-- The property is read as its query is. -/
theorem result_property (h : Samples limit e id goal made c) :
    (property limit e).result
      = (attachObservables limit id (.probability goal made c [])
          (e.lastChild? .observations)).result.map fun query => ⟨id, some query, .ok⟩ := by
  obtain ⟨body, lastFormula, query⟩ := h.result_propertyQuery
  rw [result_property_of_isRead h.isRead lastFormula, query]

/-- Without observations, the query has no observables. -/
theorem result_of_no_observations (h : Samples limit e id goal made c)
    (none : ∀ child ∈ e.children, child.tag ≠ .observations) :
    (property limit e).result = .ok ⟨id, some (.probability goal made c []), .ok⟩ := by
  rw [h.result_property, lastChild?_eq_none_iff.2 none]
  rfl

/-- With observations, the query is read as they are. -/
theorem result_with_observations (h : Samples limit e id goal made c) {observations : Element}
    (last : IsLastChild e .observations observations) :
    (property limit e).result
      = ((observables limit observations).result.map fun found =>
          ⟨id, some (.probability goal made c found), .ok⟩).mapError
        (failureIn (.observables id)) := by
  rw [h.result_property, lastChild?_eq_some_iff.2 last, attachObservables, Traced.result_bind,
    Traced.result_mapError]
  cases (observables limit observations).result <;> rfl

/-- What is refused are the observables, in the context of the property. -/
theorem eq_error_iff (h : Samples limit e id goal made c) {observations : Element}
    (last : IsLastChild e .observations observations) {failure : Failure} :
    (property limit e).result = .error failure
      ↔ ∃ fault, (observables limit observations).result = .error fault
        ∧ failure = ⟨[.observables id], .grammar fault⟩ := by
  rw [h.result_with_observations last, failureIn_eq_error_iff]
  simp only [map_eq_error_iff]
  rfl

/-- Observations have no part in the rest of the query. -/
theorem without_observations (h : Samples limit e id goal made c) :
    Samples limit (e.without .observations) id goal made c where
  isRead := by
    obtain ⟨tag, ⟨child, last, filled⟩, unmarked⟩ := h.isRead
    refine ⟨tag, ⟨child, last.without nofun, filled⟩, ?_⟩
    rintro ⟨tags, last, mark⟩
    exact unmarked ⟨tags, last.of_without nofun, mark⟩
  settings := by
    obtain ⟨smc, last, makes⟩ := h.settings
    exact ⟨smc, last.without nofun, makes⟩
  formula := by
    obtain ⟨body, last, denotes⟩ := h.formula
    exact ⟨body, last.without nofun, denotes⟩

end Samples

/-- **Observables are attached in their order.** A statistical query has no observables without an
`observations` child. Otherwise it has one for each `watch` child with a name of the last such
child, in their order, each with its name and with the expression of its only child. The property is
refused for the first of these watches that has not one child, or one that is no expression within
the limit, counted from that child; it is refused iff there is such a watch, and but for its
observables the query is the one without observations. Children that are no watch or have no name
are passed over, whatever is in them. -/
theorem observables_are_attached_in_order (options : Options) {e : Element} {id : String}
    {goal : RunGoal} {made : Sampling} {c : Condition}
    (samples : Samples options.maxDepth e id goal made c) :
    (property options.maxDepth (e.without .observations)).result
        = .ok ⟨id, some (.probability goal made c []), .ok⟩
      ∧ ((∀ child ∈ e.children, child.tag ≠ .observations) →
        (property options.maxDepth e).result
          = .ok ⟨id, some (.probability goal made c []), .ok⟩)
      ∧ ∀ observations, IsLastChild e .observations observations →
        (∀ item, (property options.maxDepth e).result = .ok item
          ↔ ∃ watched, item = ⟨id, some (.probability goal made c watched), .ok⟩
            ∧ List.Forall₂ (Observes options.maxDepth) (namedWatches observations) watched)
        ∧ (∀ failure, (property options.maxDepth e).result = .error failure
          ↔ ∃ (index : Nat) (named : String × Element) (fault : Fault),
            (namedWatches observations)[index]? = some named
              ∧ WatchFault options.maxDepth named.2 fault
              ∧ failure = ⟨[.observables id], .grammar fault⟩
              ∧ ∀ earlier < index, ∀ named', (namedWatches observations)[earlier]? = some named' →
                ∃ x, Watches options.maxDepth named'.2 x)
        ∧ ((∃ failure, (property options.maxDepth e).result = .error failure)
          ↔ ∃ named ∈ namedWatches observations, named.2.children.length ≠ 1
            ∨ ∃ child, named.2.children = [child]
              ∧ ∀ k ≤ options.maxDepth, ∀ x, ¬ DenotesExpr child k x)
        ∧ ∀ before passed after, observations.children = before ++ passed :: after →
          passed.tag ≠ .watch ∨ passed.get? "name" = none →
          (observables options.maxDepth (observations.withChildren (before ++ after))).result
            = (observables options.maxDepth observations).result := by
  refine ⟨?_, samples.result_of_no_observations, ?_⟩
  · apply samples.without_observations.result_of_no_observations
    exact lastChild?_eq_none_iff.1 (lastChild?_without_self e .observations)
  intro observations last
  refine ⟨?_, ?_, ?_, ?_⟩
  · intro item
    rw [samples.result_with_observations last, mapError_eq_ok_iff, map_eq_ok_iff]
    simp only [observables_eq_ok_iff]
    constructor
    · rintro ⟨watched, each, rfl⟩
      exact ⟨watched, rfl, each⟩
    · rintro ⟨watched, rfl, each⟩
      exact ⟨watched, each, rfl⟩
  · intro failure
    simp only [samples.eq_error_iff last, observables_eq_error_iff]
    constructor
    · rintro ⟨fault, ⟨index, named, place, blamed, before⟩, rfl⟩
      exact ⟨index, named, fault, place, blamed, rfl, before⟩
    · rintro ⟨index, named, fault, place, blamed, rfl, before⟩
      exact ⟨fault, ⟨index, named, place, blamed, before⟩, rfl⟩
  · simp only [samples.eq_error_iff last, ← exists_watchFault_iff,
      ← exists_error_of_observables_iff]
    constructor
    · rintro ⟨-, fault, failed, -⟩
      exact ⟨fault, failed⟩
    · rintro ⟨fault, failed⟩
      exact ⟨_, fault, failed, rfl⟩
  · intro before passed after children noWatch
    rw [result_observables, result_observables, ← namedWatches_of_passedOver children noWatch]

/-- A `watch` child. -/
def watchOf (entries : List (String × String)) (children : List Element) : Element :=
  .mk .watch "" (.ofList entries) children

/-- An integer constant. -/
def constantOf (text : String) : Element := .mk .integerConstant text .empty []

/-- A statistical property that asks whether a deadlock is reached, with the given children in its
observations. -/
def observing (children : List Element) : Element :=
  .mk .property "" .empty
    [idOf "q", .mk .observations "" .empty children, .mk .smc "" .empty [],
      .mk .formula "" .empty [.mk .eventually "" .empty [.mk .deadlock "" .empty []]]]

/-- Observations with a watch that has no name, an element of another kind, and three watches. -/
def mixedWatches : List Element :=
  [watchOf [] [], watchOf [("name", "x")] [constantOf "1"], .mk (.other "note") "" .empty [],
    watchOf [("name", "")] [.mk .place "p" .empty []], watchOf [("name", "x")] [constantOf "1"]]

theorem observables_are_attached_in_order_of_mixed :
    (property 1 (observing mixedWatches)).result
        = .ok ⟨"q", some (.probability .eventually .default .deadlock
          [("x", .literal 1), ("", .place "p"), ("x", .literal 1)]), .ok⟩
      ∧ (property 1 ((observing mixedWatches).without .observations)).result
        = .ok ⟨"q", some (.probability .eventually .default .deadlock []), .ok⟩
      ∧ (property 1 (observing (mixedWatches ++ [watchOf [("name", "y")] []]))).result
        = .error ⟨[.observables "q"], .grammar (.wrongArity "watch" (.exactly 1) 0)⟩ := by
  have samples (children : List Element) :
      Samples 1 (observing children) "q" .eventually .default .deadlock :=
    { isRead := ⟨rfl, propertyId?_eq_some_iff.1 rfl, isReachability_iff.not.1 nofun⟩
      settings := ⟨.mk .smc "" .empty [], lastChild?_eq_some_iff.1 rfl, settings_eq_ok_iff.1 rfl⟩
      formula := ⟨_, lastChild?_eq_some_iff.1 rfl, 1, le_rfl, .mk .eventually .deadlock⟩ }
  have constant : Watches 1 (watchOf [("name", "x")] [constantOf "1"]) (.literal 1) := by
    apply watchedExpr_eq_ok_iff.1
    rfl
  have place : Watches 1 (watchOf [("name", "")] [.mk .place "p" .empty []]) (.place "p") := by
    apply watchedExpr_eq_ok_iff.1
    rfl
  have attached (children : List Element) :=
    observables_are_attached_in_order ⟨[], 1⟩ (samples children)
  obtain ⟨without, -, mixed⟩ := attached mixedWatches
  obtain ⟨read, -, -, -⟩ := mixed _ (lastChild?_eq_some_iff.1 (by rfl))
  obtain ⟨-, -, broken⟩ := attached (mixedWatches ++ [watchOf [("name", "y")] []])
  obtain ⟨-, refused, -, -⟩ := broken _ (lastChild?_eq_some_iff.1 (by rfl))
  refine ⟨?_, without, ?_⟩
  · apply (read _).2
    exact ⟨_, rfl, .cons ⟨rfl, constant⟩ (.cons ⟨rfl, place⟩ (.cons ⟨rfl, constant⟩ .nil))⟩
  · apply (refused _).2
    refine ⟨3, ("y", watchOf [("name", "y")] []), _, rfl, .inl ⟨nofun, rfl⟩, rfl, ?_⟩
    rintro earlier less named found
    -- The three watches before it are those that are read above.
    match earlier, less, found with
    | 0, _, rfl => exact ⟨_, constant⟩
    | 1, _, rfl => exact ⟨_, place⟩
    | 2, _, rfl => exact ⟨_, constant⟩

end PetriQuery.Grammar
