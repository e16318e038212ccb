import PetriQuery.Grammar.Sampling
import PetriQuery.Proofs.Grammar.Expression
import PetriQuery.Proofs.Refusal

/-!
# Watches

The observables of an `observations` element are those of its `watch` children with a name
(`namedWatches`), one for each of them and in their order (`observables_eq_ok_iff`). They are
refused for the first of these whose only child is no expression, or that has not one child
(`observables_eq_error_iff`). All other children are passed over: reading the observables is reading
the named watches alone (`result_observables`).
-/

set_option autoImplicit false

namespace PetriQuery

/-! ## Lists from which some items are left out -/

/-- Reading the items of a list, some to nothing, is reading the others alone. -/
theorem Traced.result_mapM_filterMap {ε α β γ : Type} {f : α → Traced ε (Option β)}
    {chosen? : α → Option γ} {g : γ → Traced ε β}
    (skips : ∀ a, chosen? a = none → (f a).result = .ok none)
    (reads : ∀ a c, chosen? a = some c → (f a).result = (g c).result.map some) (as : List α) :
    (as.mapM f).result.map (List.filterMap id) = ((as.filterMap chosen?).mapM g).result := by
  induction as with
  | nil => rfl
  | cons a as ih =>
    rw [List.mapM_cons, result_bind]
    cases choice : chosen? a with
    | none =>
      -- An item that is left out cannot fail, so what fails behind it fails without it too.
      rw [List.filterMap_cons_none choice, ← ih, skips a choice]
      change ((as.mapM f >>= fun found => pure (none :: found)).result).map _ = _
      rw [result_bind]
      cases (as.mapM f).result <;> rfl
    | some c =>
      rw [List.filterMap_cons_some choice, List.mapM_cons, result_bind, reads a c choice]
      cases (g c).result with
      | error failure => rfl
      | ok b =>
        change ((as.mapM f >>= fun found => pure (some b :: found)).result).map _
          = ((as.filterMap chosen?).mapM g >>= fun found => pure (b :: found)).result
        rw [result_bind, result_bind, ← ih]
        cases (as.mapM f).result <;> rfl

namespace Grammar

open Document (Element)
open Query (Expr Observable)
open Traced (result_bind_eq_error_iff result_bind_eq_ok_iff result_bind_of_ok
  result_mapM_eq_error_iff result_mapM_eq_ok_iff)

/-! ## Watches -/

/-- The `watch` children that have a name, each with its name, in their order. -/
def namedWatches (e : Element) : List (String × Element) :=
  (e.children.filter fun child => child.tag = .watch).filterMap fun watch =>
    (watch.get? "name").map fun name => (name, watch)

/-- A watch with a name is a `watch` child that has it. -/
theorem mem_namedWatches_iff {e watch : Element} {name : String} :
    (name, watch) ∈ namedWatches e
      ↔ watch ∈ e.children ∧ watch.tag = .watch ∧ watch.get? "name" = some name := by
  simp only [namedWatches, List.mem_filterMap, List.mem_filter, decide_eq_true_eq,
    Option.map_eq_some_iff, Prod.mk.injEq]
  constructor
  · rintro ⟨_, ⟨member, tag⟩, _, own, rfl, rfl⟩
    exact ⟨member, tag, own⟩
  · rintro ⟨member, tag, own⟩
    exact ⟨watch, ⟨member, tag⟩, name, own, rfl, rfl⟩

/-- The watch has one child, and that denotes the expression with no more levels than the limit. -/
def Watches (limit : Nat) (watch : Element) (x : Expr) : Prop :=
  ∃ child, watch.children = [child] ∧ ∃ k ≤ limit, DenotesExpr child k x

/-- The observable has the name of the watch, and the expression that it watches. -/
def Observes (limit : Nat) (named : String × Element) (observable : Observable) : Prop :=
  observable.1 = named.1 ∧ Watches limit named.2 observable.2

/-- What a watch is refused for: the number of its children, or what its only child is refused
for. -/
def WatchFault (limit : Nat) (watch : Element) (fault : Fault) : Prop :=
  (watch.children.length ≠ 1
      ∧ fault = .wrongArity watch.name (.exactly 1) watch.children.length)
    ∨ ∃ child, watch.children = [child] ∧ (toExpr limit limit child).result = .error fault

/-- The expression that a watch watches. -/
def watchedExpr (limit : Nat) (watch : Element) : Traced Fault Expr := do
  toExpr limit limit (← onlyChild watch)

section

variable {limit : Nat} {e watch : Element}

theorem watchedExpr_eq_ok_iff {x : Expr} :
    (watchedExpr limit watch).result = .ok x ↔ Watches limit watch x := by
  simp only [watchedExpr, result_bind_eq_ok_iff, onlyChild_eq_ok_iff, toExpr_eq_ok_iff, Watches]

/-- An element that has not one child is refused for the number of its children. -/
theorem onlyChild_eq_error_iff {fault : Fault} :
    (onlyChild e).result = .error fault
      ↔ e.children.length ≠ 1
        ∧ fault = .wrongArity e.name (.exactly 1) e.children.length := by
  rw [onlyChild]
  split
  · next children => simp [children]
  · next several =>
    rw [result_refuseArity, Except.error.injEq, eq_comm, iff_and_self]
    rintro - one
    obtain ⟨child, children⟩ := List.length_eq_one_iff.1 one
    exact several child children

theorem watchedExpr_eq_error_iff {fault : Fault} :
    (watchedExpr limit watch).result = .error fault ↔ WatchFault limit watch fault := by
  simp only [watchedExpr, result_bind_eq_error_iff, onlyChild_eq_error_iff, onlyChild_eq_ok_iff,
    WatchFault]

/-- A watch is refused iff it has not one child, or one that is no expression. -/
theorem exists_watchFault_iff :
    (∃ fault, WatchFault limit watch fault)
      ↔ watch.children.length ≠ 1
        ∨ ∃ child, watch.children = [child] ∧ ∀ k ≤ limit, ∀ x, ¬ DenotesExpr child k x := by
  constructor
  · rintro ⟨fault, ⟨several, -⟩ | ⟨child, children, refused⟩⟩
    · exact .inl several
    · refine .inr ⟨child, children, fun k le x denotes => ?_⟩
      rw [toExpr_eq_ok_iff.2 ⟨k, le, denotes⟩] at refused
      cases refused
  · rintro (several | ⟨child, children, none⟩)
    · exact ⟨_, .inl ⟨several, rfl⟩⟩
    · cases read : (toExpr limit limit child).result with
      | error fault => exact ⟨fault, .inr ⟨child, children, read⟩⟩
      | ok x =>
        obtain ⟨k, le, denotes⟩ := toExpr_eq_ok_iff.1 read
        exact absurd denotes (none k le x)

/-- **Reading observables is reading the watches that have a name.** -/
theorem result_observables (limit : Nat) (e : Element) :
    (observables limit e).result
      = ((namedWatches e).mapM fun named =>
          (fun x => (named.1, x)) <$> watchedExpr limit named.2).result := by
  -- The names are looked for while the watches are read, and only then what has none is dropped.
  have pieces : (observables limit e).result
      = ((e.children.filter fun child => child.tag = .watch).mapM
          (observable? limit)).result.map (List.filterMap id) := by
    rw [observables, Traced.result_bind]
    cases ((e.children.filter fun child => child.tag = .watch).mapM (observable? limit)).result
    · rfl
    · rfl
  rw [pieces, namedWatches]
  apply Traced.result_mapM_filterMap
  · intro watch unnamed
    rw [observable?, Option.map_eq_none_iff.1 unnamed]
    rfl
  · intro watch named has
    obtain ⟨name, own, rfl⟩ := Option.map_eq_some_iff.1 has
    rw [observable?, own, Traced.result_map, watchedExpr, Traced.result_bind, Traced.result_bind]
    cases (onlyChild watch).result with
    | error fault => rfl
    | ok child =>
      change (toExpr limit limit child >>= fun x => pure (some (name, x))).result
        = ((toExpr limit limit child).result.map fun x => (name, x)).map some
      rw [Traced.result_bind]
      cases (toExpr limit limit child).result <;> rfl

/-- A watch that has a name is read to an observable. -/
theorem result_named_eq_ok_iff {named : String × Element} {observable : Observable} :
    ((fun x => (named.1, x)) <$> watchedExpr limit named.2).result = .ok observable
      ↔ Observes limit named observable := by
  rw [Traced.result_map, map_eq_ok_iff, Observes]
  simp only [watchedExpr_eq_ok_iff]
  constructor
  · rintro ⟨x, watches, rfl⟩
    exact ⟨rfl, watches⟩
  · rintro ⟨name, watches⟩
    exact ⟨observable.2, watches, Prod.ext name.symm rfl⟩

/-- Observables are read iff each watch that has a name watches an expression: one observable for
each of them, in their order. -/
theorem observables_eq_ok_iff {found : List Observable} :
    (observables limit e).result = .ok found
      ↔ List.Forall₂ (Observes limit) (namedWatches e) found := by
  rw [result_observables, result_mapM_eq_ok_iff]
  simp only [result_named_eq_ok_iff]

/-- Observables are refused for the first watch that has a name and is refused. -/
theorem observables_eq_error_iff {fault : Fault} :
    (observables limit e).result = .error fault
      ↔ ∃ (index : Nat) (named : String × Element), (namedWatches e)[index]? = some named
        ∧ WatchFault limit named.2 fault
        ∧ ∀ earlier < index, ∀ named', (namedWatches e)[earlier]? = some named' →
          ∃ x, Watches limit named'.2 x := by
  have passes (named : String × Element) :
      (∃ observable, Observes limit named observable) ↔ ∃ x, Watches limit named.2 x := by
    constructor
    · rintro ⟨observable, -, watches⟩
      exact ⟨observable.2, watches⟩
    · rintro ⟨x, watches⟩
      exact ⟨(named.1, x), rfl, watches⟩
  rw [result_observables, result_mapM_eq_error_iff]
  simp only [result_named_eq_ok_iff, passes]
  simp only [Traced.result_map, map_eq_error_iff, watchedExpr_eq_error_iff]

/-- Observables are refused iff some watch that has a name is refused. -/
theorem exists_error_of_observables_iff :
    (∃ fault, (observables limit e).result = .error fault)
      ↔ ∃ named ∈ namedWatches e, ∃ fault, WatchFault limit named.2 fault := by
  constructor
  · rintro ⟨fault, refused⟩
    obtain ⟨index, named, place, blamed, -⟩ := observables_eq_error_iff.1 refused
    exact ⟨named, List.mem_of_getElem? place, fault, blamed⟩
  · rintro ⟨named, member, fault, blamed⟩
    cases read : (observables limit e).result with
    | error fault => exact ⟨fault, rfl⟩
    | ok found =>
      -- All named watches are read then, this one too.
      obtain ⟨index, within, rfl⟩ := List.mem_iff_getElem.1 member
      have each := observables_eq_ok_iff.1 read
      obtain ⟨-, watches⟩ := each.get within (each.length_eq ▸ within)
      have refused := watchedExpr_eq_error_iff.2 blamed
      rw [List.get_eq_getElem] at watches
      rw [watchedExpr_eq_ok_iff.2 watches] at refused
      cases refused

/-- Each observable that is read is the one of some watch. -/
theorem exists_observes_of_observables {found : List Observable}
    (read : (observables limit e).result = .ok found) :
    ∀ observable ∈ found, ∃ named, Observes limit named observable :=
  forall_of_forall₂ (fun named _ observes => ⟨named, observes⟩) (observables_eq_ok_iff.1 read)

end

end Grammar

end PetriQuery
