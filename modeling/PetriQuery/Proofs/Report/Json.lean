import PetriQuery.Proofs.Query.Serial
import PetriQuery.Proofs.Report.Lines

/-!
# The JSON report loses nothing

A record holds the id, the outcome and the structure of the query. Together the outcome and the
query tell the verdict, so the record determines the item (`record_inj`). As the texts of JSON
values are unambiguous, so is the report of any list of items, apart from fractions that are a NaN
or an infinity, which are all written alike (`json_report_eq_iff`).
-/

set_option autoImplicit false

namespace PetriQuery.Report

open Grammar (Item Verdict)

/-- All fractions in the settings of all queries are finite. -/
def HasFiniteSettings (items : List Item) : Prop :=
  ∀ item ∈ items, ∀ query, item.query? = some query → query.HasFiniteSettings

/-! ## Records -/

/-- The words for outcomes differ. -/
theorem Outcome.word_inj {outcome outcome' : Outcome} (same : outcome.word = outcome'.word) :
    outcome = outcome' := by
  have read := outcome.ofWord?_word
  rw [same, outcome'.ofWord?_word] at read
  exact (Option.some.inj read).symm

/-- The outcome and the query of an item tell the verdict. -/
theorem verdict_eq_of_ofItem {id id' : String} {query? : Option Query.Condition}
    {verdict verdict' : Verdict}
    (same : Outcome.ofItem ⟨id, query?, verdict⟩ = Outcome.ofItem ⟨id', query?, verdict'⟩) :
    verdict = verdict' := by
  cases query? <;> cases verdict <;> cases verdict' <;> first | rfl | cases same

/-- Items with one record are equal. -/
theorem record_inj {index index' : Nat} {item item' : Item}
    (same : record index item = record index' item') : item = item' := by
  obtain ⟨id, query?, verdict⟩ := item
  obtain ⟨id', query?', verdict'⟩ := item'
  have members := Json.object.inj same
  simp only [List.cons_append, List.nil_append, List.cons.injEq, Prod.mk.injEq, true_and,
    Json.string.injEq] at members
  obtain ⟨-, rfl, words, described⟩ := members
  have outcomes := Outcome.word_inj words
  -- A query adds a member to the record, so the members tell whether there is one.
  cases query? with
  | none =>
    cases query?' with
    | none => rw [verdict_eq_of_ofItem outcomes]
    | some query' => cases described
  | some query =>
    cases query?' with
    | none => cases described
    | some query' =>
      have forms : query.toJson = query'.toJson :=
        (Prod.mk.inj (List.cons.inj (List.cons.inj described).2).1).2
      obtain rfl := Query.Condition.toJson_inj forms
      rw [verdict_eq_of_ofItem outcomes]

/-- Lists of items with one list of records are equal, whatever the indices are. -/
theorem records_inj {entries entries' : List (Item × Nat)}
    (same : entries.map (fun entry => record entry.2 entry.1)
      = entries'.map fun entry => record entry.2 entry.1) :
    entries.map Prod.fst = entries'.map Prod.fst := by
  induction entries generalizing entries' with
  | nil =>
    cases entries' with
    | nil => rfl
    | cons entry' entries' => cases same
  | cons entry entries ih =>
    cases entries' with
    | nil => cases same
    | cons entry' entries' =>
      obtain ⟨first, others⟩ := List.cons.inj same
      rw [List.map_cons, List.map_cons, record_inj first, ih others]

/-- The fractions in a record are those of the settings. -/
theorem exact_record {item : Item} (index : Nat)
    (finite : ∀ query, item.query? = some query → query.HasFiniteSettings) :
    (record index item).Exact := by
  obtain ⟨id, query?, verdict⟩ := item
  cases query? with
  | none => exact ⟨trivial, trivial, trivial, trivial, trivial⟩
  | some query =>
    have exact := Query.Condition.exact_toJson (finite query rfl)
    exact ⟨trivial, trivial, trivial, trivial, exact, trivial⟩

/-- The fractions in records are those of the settings. -/
theorem exact_records {items : List Item} (finite : HasFiniteSettings items) :
    (records items).Exact := by
  apply Json.allExact_iff.2
  intro form member
  obtain ⟨entry, numbered, rfl⟩ := List.mem_map.1 member
  exact exact_record entry.2 (finite entry.1 (List.fst_mem_of_mem_zipIdx numbered))

/-! ## Reports -/

/-- **The JSON report determines the items.** Lists of items whose settings are finite have one
report iff they are equal, with every id, verdict and query, every setting with all its bits and the
observables in their order. -/
theorem json_report_eq_iff {items items' : List Item} (finite : HasFiniteSettings items)
    (finite' : HasFiniteSettings items') :
    report true items = report true items' ↔ items = items' := by
  constructor
  · intro same
    have forms := Json.pretty_inj (exact_records finite) (exact_records finite') same
    have each := records_inj (Json.array.inj forms)
    rwa [List.zipIdx_map_fst, List.zipIdx_map_fst] at each
  · rintro rfl
    rfl

/-- An item whose id and place are written with escapes, with the settings that are made without any
attribute. -/
def quotedItem (id : String) : Item :=
  ⟨id, some (.probability .eventually .default (.compare .less (.place "\\n\"") (.literal 1))
    [("\n", .place "\x7d")]), .ok⟩

/-- Ids that differ in an escape only have different reports. -/
theorem json_report_eq_iff_of_escapes :
    (∀ id, HasFiniteSettings [quotedItem id])
      ∧ report true [quotedItem "\n"] ≠ report true [quotedItem "\\n"] := by
  have finite : ∀ id, HasFiniteSettings [quotedItem id] := by
    intro id item member query has
    obtain rfl := List.eq_of_mem_singleton member
    obtain rfl := Option.some.inj has
    exact ⟨by decide, trivial⟩
  refine ⟨finite, ?_⟩
  intro same
  have items := (json_report_eq_iff (finite "\n") (finite "\\n")).1 same
  exact absurd (congrArg Item.id (List.cons.inj items).1) (by decide)

end PetriQuery.Report
