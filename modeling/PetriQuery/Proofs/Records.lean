import PetriQuery.Proofs.Grammar.Image
import PetriQuery.Proofs.Grammar.Parts
import PetriQuery.Proofs.Session
import PetriQuery.Report

/-!
# The shapes of records

What a session holds of a property tells what became of the property. There are three shapes of
items, one for each outcome (`HasShape`), and an item has the shape that its property is due: its
index in its own document, the selection and the tags of the property decide which (`IsDue`). The
outcome that is reported is found by the shape alone, and it is right because no other shapes occur
(`IsRecord`), whatever has been read before.
-/

set_option autoImplicit false

namespace PetriQuery

open Document (Element)
open Grammar
open Query (Condition)
open Report (Outcome)

/-! ## Shapes -/

/-- The item has the shape that goes with the outcome: nothing but an empty id, an id without a
query, or an id with a query. -/
def HasShape : Outcome → Item → Prop
  | .skipped, item => item.id = "" ∧ item.query? = none ∧ item.verdict = .ok
  | .unsupported, item =>
    (item.id ≠ "" ∧ Text.IsTrimmed item.id) ∧ item.query? = none ∧ item.verdict = .unsupported
  | .ok, item =>
    (item.id ≠ "" ∧ Text.IsTrimmed item.id) ∧ (∃ query, item.query? = some query)
      ∧ item.verdict = .ok

/-- The outcome that the child at an index has to have. -/
def IsDue (options : Options) (index : Nat) (child : Element) : Outcome → Prop
  | .skipped => ¬ Selected options.selected index
  | .unsupported => Selected options.selected index ∧ Marked child
  | .ok => Selected options.selected index ∧ ¬ Marked child

/-- The item records what became of the child at an index. -/
structure IsRecord (options : Options) (index : Nat) (child : Element) (item : Item) : Prop where
  /-- The item has exactly one shape. -/
  shape : ∃! outcome, HasShape outcome item
  /-- It is the shape of the outcome that the child has to have. -/
  due : ∀ outcome, HasShape outcome item ↔ IsDue options index child outcome
  /-- The outcome that is reported is the one that goes with the shape. -/
  outcome : ∀ outcome, Outcome.ofItem item = outcome ↔ HasShape outcome item
  /-- The items that count as left out are those of the selection. -/
  skipped : item.isSkipped = true ↔ HasShape .skipped item
  /-- The query is statistical iff the property has an `smc` child. -/
  statistical : ∀ query, item.query? = some query →
    (query.isStatistical = true ↔ ∃ smc ∈ child.children, smc.tag = .smc)

/-- The outcome that is reported of an item goes with its shape. -/
theorem HasShape.ofItem_eq {outcome : Outcome} {item : Item} (h : HasShape outcome item) :
    Outcome.ofItem item = outcome := by
  obtain ⟨id, query?, verdict⟩ := item
  cases outcome with
  | skipped =>
    obtain ⟨-, rfl, rfl⟩ := h
    rfl
  | unsupported =>
    obtain ⟨-, rfl, rfl⟩ := h
    rfl
  | ok =>
    obtain ⟨-, ⟨query, rfl⟩, rfl⟩ := h
    rfl

/-- An item is reported as skipped iff it counts as left out. -/
theorem ofItem_eq_skipped_iff {item : Item} :
    Outcome.ofItem item = .skipped ↔ item.isSkipped = true := by
  rw [Outcome.ofItem]
  by_cases skipped : item.isSkipped = true
  · simp [skipped]
  · by_cases unsupported : item.verdict = .unsupported
    · simp [skipped, unsupported]
    · simp [skipped, unsupported]

/-- No child has to have two outcomes. -/
theorem IsDue.unique {options : Options} {index : Nat} {child : Element}
    {outcome outcome' : Outcome} (h : IsDue options index child outcome)
    (h' : IsDue options index child outcome') : outcome = outcome' := by
  cases outcome with
  | skipped =>
    cases outcome' with
    | skipped => rfl
    | unsupported => exact absurd h'.1 h
    | ok => exact absurd h'.1 h
  | unsupported =>
    cases outcome' with
    | skipped => exact absurd h.1 h'
    | unsupported => rfl
    | ok => exact absurd h.2 h'.2
  | ok =>
    cases outcome' with
    | skipped => exact absurd h.1 h'
    | unsupported => exact absurd h'.2 h.2
    | ok => rfl

/-! ## Queries -/

/-- A plain condition is no statistical query. -/
theorem not_isStatistical_of_isPlain {c : Condition} (h : c.IsPlain) : c.isStatistical = false := by
  cases c with
  | probability goal settings body observables => cases h
  | _ => rfl

/-- What a `formula` element denotes without settings is no statistical query. -/
theorem not_isStatistical_of_isQuery {c : Condition} (h : c.IsQuery) : c.isStatistical = false := by
  rcases h with plain | ⟨bound, -, rfl⟩ | ⟨body, -, rfl⟩
  · exact not_isStatistical_of_isPlain plain
  · rfl
  · rfl

/-- The query of a property is statistical iff the property has an `smc` child. -/
theorem isStatistical_of_propertyQuery {limit : Nat} {e body : Element} {id : String}
    {query : Condition} (read : (propertyQuery limit (partsOf e) id body).result = .ok query) :
    query.isStatistical = true ↔ ∃ smc ∈ e.children, smc.tag = .smc := by
  rcases exists_denotes_of_propertyQuery read with
    ⟨none, k, -, denotes⟩ | ⟨smc, goal, made, c, watched, last, -, rfl, -⟩
  · rw [not_isStatistical_of_isQuery denotes.isQuery]
    simpa using none
  · exact iff_of_true rfl ⟨smc, last.mem⟩

/-! ## Items -/

section

variable {options : Options} {index : Nat} {child : Element} {item : Item}

/-- The item of a child has the shape of an outcome that the child has to have. -/
theorem exists_shape_of_hasItem (h : HasItem options index child item) :
    ∃ outcome, HasShape outcome item ∧ IsDue options index child outcome := by
  obtain ⟨selection, limit⟩ := options
  by_cases selected : Selected selection index
  · obtain ⟨-, id, hasId, ⟨marked, rfl⟩ | ⟨notMarked, body, query, -, -, rfl⟩⟩ :=
      property_eq_ok_iff.1 ((hasItem_of_selected selected).1 h)
    · exact ⟨.unsupported, ⟨hasId.isTrimmed, rfl, rfl⟩, selected, marked⟩
    · exact ⟨.ok, ⟨hasId.isTrimmed, ⟨query, rfl⟩, rfl⟩, selected, notMarked⟩
  · obtain rfl := (hasItem_of_not_selected selected).1 h
    exact ⟨.skipped, ⟨rfl, rfl, rfl⟩, selected⟩

/-- The query in the item of a child is statistical iff the child has an `smc` child. -/
theorem isStatistical_of_hasItem {query : Condition} (h : HasItem options index child item)
    (has : item.query? = some query) :
    query.isStatistical = true ↔ ∃ smc ∈ child.children, smc.tag = .smc := by
  obtain ⟨body, -, read⟩ := h.exists_propertyQuery has
  exact isStatistical_of_propertyQuery read

/-- The item of a child records what became of it. -/
theorem isRecord_of_hasItem (h : HasItem options index child item) :
    IsRecord options index child item := by
  obtain ⟨outcome, shape, due⟩ := exists_shape_of_hasItem h
  -- The shape of an item is the one that goes with the outcome that is reported of it.
  have only {outcome' : Outcome} (shape' : HasShape outcome' item) : outcome' = outcome :=
    shape'.ofItem_eq.symm.trans shape.ofItem_eq
  have reported (outcome' : Outcome) :
      Outcome.ofItem item = outcome' ↔ HasShape outcome' item := by
    constructor
    · rintro rfl
      rwa [shape.ofItem_eq]
    · intro shape'
      exact shape'.ofItem_eq
  constructor
  · exact ⟨outcome, shape, fun _ => only⟩
  · intro outcome'
    constructor
    · intro shape'
      rwa [only shape']
    · intro due'
      rwa [due'.unique due]
  · exact reported
  · rw [← ofItem_eq_skipped_iff]
    exact reported .skipped
  · exact fun _ => isStatistical_of_hasItem h

end

/-! ## Sessions -/

/-- The items are the records of the children of a root. -/
def AreRecords (options : Options) (root : Element) (items : List Item) : Prop :=
  items.length = root.children.length
    ∧ ∀ index child item, root.children[index]? = some child → items[index]? = some item →
      IsRecord options index child item

namespace Session

/-- Calls that succeed leave the records of their documents in a session of their own. -/
theorem exists_documents (options : Options) {calls : List Call}
    (succeed : ∀ call ∈ calls, ((start options).call call).2.result.isOk = true) :
    ∃ documents : List (Element × List Item),
      List.Forall₂ (fun call document => call.root.result = .ok document.1) calls documents
      ∧ calls.flatMap (fun call => ((start options).call call).1.items) = documents.flatMap Prod.snd
      ∧ ∀ document ∈ documents, AreRecords options document.1 document.2 := by
  induction calls with
  | nil => exact ⟨[], .nil, rfl, List.forall_mem_nil _⟩
  | cons call calls ih =>
    obtain ⟨head, tail⟩ := List.forall_mem_cons.1 succeed
    obtain ⟨documents, roots, items, records⟩ := ih tail
    have ends : ((start options).call call).2.result = .ok () := by
      cases result : ((start options).call call).2.result with
      | ok value => rfl
      | error failure =>
        rw [result] at head
        cases head
    obtain ⟨root, pushed, handed, after, count, each⟩ := fst_call_of_ok ends
    refine ⟨(root, pushed) :: documents, .cons handed roots, ?_, ?_⟩
    · rw [List.flatMap_cons, List.flatMap_cons, after, items]
      rfl
    · refine List.forall_mem_cons.2 ⟨⟨count, ?_⟩, records⟩
      intro index child item member member'
      exact isRecord_of_hasItem (each index child item member member')

/-- **Every held item is the record of a child of its document.** After any history, the items that
a session holds are those of the documents of its successful calls, one after the other. Each
document has an item for each child of its root, at the place of the child, and the item has the one
shape that goes with the outcome that the child has to have, from which the outcome that is reported
is found. Its query is statistical iff the child has an `smc` child. -/
theorem items_are_records (options : Options) (calls : List Call) :
    ∃ documents : List (Element × List Item),
      List.Forall₂ (fun call document => call.root.result = .ok document.1)
        (calls.filter fun call => ((start options).call call).2.result.isOk) documents
      ∧ ((start options).run calls).1.items = documents.flatMap Prod.snd
      ∧ ∀ document ∈ documents, AreRecords options document.1 document.2 := by
  have held : ((start options).run calls).1.items
      = (calls.filter fun call => ((start options).call call).2.result.isOk).flatMap
          fun call => ((start options).call call).1.items := by
    rw [run_eq, ← flatMap_items_eq]
    rfl
  rw [held]
  apply exists_documents
  intro call member
  exact (List.mem_filter.1 member).2

end Session

end PetriQuery
