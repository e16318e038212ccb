import PetriQuery.Grammar.Property
import PetriQuery.Query.Serial

/-!
# Reports

The two texts in which items are reported: `text` has a line for each item, with its index, its
outcome, and its id and its formula as far as it has them; `json` is an array with an object for
each item, which also holds the structure of the query.
-/

set_option autoImplicit false

namespace PetriQuery.Report

open Grammar (Item)

/-- What became of a property. -/
inductive Outcome where
  | ok
  | unsupported
  | skipped
deriving DecidableEq, Repr

/-- The word for an outcome. -/
def Outcome.word : Outcome → String
  | .ok => "ok"
  | .unsupported => "unsupported"
  | .skipped => "skipped"

/-- The outcome of an item. -/
def Outcome.ofItem (item : Item) : Outcome :=
  if item.isSkipped then .skipped
  else if item.verdict = .unsupported then .unsupported
  else .ok

/-! ## Lines -/

/-- The line of an item, without its end. -/
def line (index : Nat) (item : Item) : List Char :=
  let id := if item.id = "" then [] else ' ' :: item.id.toList
  let formula :=
    match item.query? with
    | none => []
    | some query => ' ' :: query.chars
  (toString index).toList ++ ' ' :: (Outcome.ofItem item).word.toList ++ id ++ formula

/-- The lines of items. -/
def text (items : List Item) : String :=
  String.ofList (items.zipIdx.flatMap fun entry => line entry.2 entry.1 ++ ['\n'])

/-! ## JSON -/

/-- The record of an item. A query that is missing has a `null` formula and no member of its own. -/
def record (index : Nat) (item : Item) : Json :=
  let described : List (String × Json) :=
    match item.query? with
    | none => [("formula", .null)]
    | some query => [("formula", .string query.render), ("query", query.toJson)]
  .object
    ([("index", .int index), ("id", .string item.id),
      ("outcome", .string (Outcome.ofItem item).word)] ++ described)

/-- The records of items as one JSON value. -/
def records (items : List Item) : Json :=
  .array (items.zipIdx.map fun entry => record entry.2 entry.1)

/-- The records of items as a JSON text. -/
def json (items : List Item) : String := (records items).pretty

/-- The report of items in one of the two forms. -/
def report (asJson : Bool) (items : List Item) : String :=
  if asJson then json items else text items

end PetriQuery.Report
