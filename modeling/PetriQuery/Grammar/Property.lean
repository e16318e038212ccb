import PetriQuery.Failure
import PetriQuery.Grammar.Formula
import PetriQuery.Grammar.Sampling

/-!
# Properties

A `property` element gives an item: its id and the query that its formula denotes. Its children are
gone through once, and of each kind that is a part of a property the last one is kept; children of
other kinds are passed over. A property whose tags mark it as a reachability property is not
supported; its formula, settings and observables are not looked at.

A `property-set` element gives an item for each of its children. The children that a selection
leaves out are not looked at either, and give items without id and query.
-/

set_option autoImplicit false

namespace PetriQuery.Grammar

open Document (Element Tag)
open Query (Condition)

/-- Whether a property is one of those that are read. -/
inductive Verdict where
  | ok
  | unsupported
deriving DecidableEq, Repr

/-- What a property gives. -/
structure Item where
  /-- The id of the property, empty if the property was left out. -/
  id : String
  /-- The query, if the property was read. -/
  query? : Option Condition
  verdict : Verdict
deriving DecidableEq, Repr

/-- The item of a property that the selection leaves out. -/
def Item.skipped : Item := ⟨"", none, .ok⟩

/-- Whether the selection left the property out. -/
def Item.isSkipped (item : Item) : Bool := item.query?.isNone && item.verdict = .ok

/-- Which properties are read, and how deep formulae and expressions may nest. -/
structure Options where
  /-- The indices of the properties, counted from zero. Without any, all are read. -/
  selected : List Nat := []
  maxDepth : Nat := 256
deriving DecidableEq, Repr

/-- The options with which all properties are read. -/
def Options.default : Options := {}

/-- Whether the property at an index is read. -/
def Options.selects (options : Options) (index : Nat) : Bool :=
  options.selected.isEmpty || options.selected.contains index

/-! ## The parts of a property -/

/-- The parts of a property, as far as its children have been gone through. -/
structure Parts where
  /-- The text of the id without blanks at its ends. -/
  id? : Option String := none
  formula? : Option Element := none
  /-- The tags do not mark the property as a reachability property. -/
  isSupported : Bool := true
  smc? : Option Element := none
  observations? : Option Element := none

/-- Whether a `tags` element marks its property as a reachability property. -/
def marks (tags : Element) : Bool :=
  tags.children.any fun tag => tag.tag = .isReachability && tag.text = "true"

/-- Takes a child, in the place of an earlier one of its kind. Children that are no parts are passed
over. -/
def Parts.take (parts : Parts) (child : Element) : Traced Failure Parts :=
  match child.tag with
  | .id => return { parts with id? := some (Text.trim child.text) }
  | .formula => return { parts with formula? := some child }
  | .tags => return { parts with isSupported := !marks child }
  | .smc => return { parts with smc? := some child }
  | .observations => return { parts with observations? := some child }
  | _ => do
    Traced.note .trace s!"ignoring '{child.tag}' in property"
    return parts

/-- Goes through the children of a property. -/
def scan (e : Element) : Traced Failure Parts := e.children.foldlM Parts.take {}

/-- A failure of the grammar in one context. -/
def failureIn (context : Context) (fault : Fault) : Failure :=
  ⟨[context], .grammar fault⟩

/-- The statistical query with the observables that an `observations` child gives. -/
def attachObservables (limit : Nat) (id : String) (query : Condition) :
    Option Element → Traced Failure Condition
  | none => return query
  | some observations => do
    let found ← (observables limit observations).mapError (failureIn (.observables id))
    match query.withObservables? found with
    | some query => return query
    | none => Traced.fail (.ofCause (.grammar (.notStatistical id)))

/-- The query of a property with the given parts, id and formula. It is statistical iff there is an
`smc` child. -/
def propertyQuery (limit : Nat) (parts : Parts) (id : String) (body : Element) :
    Traced Failure Condition :=
  match parts.smc? with
  | none => (formula limit body).mapError (failureIn (.formula id))
  | some smc => do
    let settings ← (settings smc).mapError (failureIn (.settings id))
    let query ← (statisticalFormula limit settings body).mapError (failureIn (.formula id))
    attachObservables limit id query parts.observations?

/-! ## Properties and sets of properties -/

/-- Fails with a fault of the grammar outside of any context. -/
def refuseGrammar {α : Type} (message : String) (fault : Fault) : Traced Failure α :=
  Traced.refuse message (.ofCause (.grammar fault))

/-- The item of a property. -/
def property (limit : Nat) (e : Element) : Traced Failure Item :=
  if e.tag ≠ .property then
    refuseGrammar s!"missing property, found '{e.tag}'" (.notProperty e.name)
  else do
    let parts ← scan e
    match parts.id?.filter fun id => id ≠ "" with
    | none => refuseGrammar "a query with empty id" .missingId
    | some id =>
      Traced.note .debug s!"parsing property '{id}'"
      -- Before the formula is asked for: such a property needs none.
      if !parts.isSupported then
        Traced.note .debug s!"property '{id}' is not supported"
        return ⟨id, none, .unsupported⟩
      else
        match parts.formula? with
        | none => refuseGrammar s!"property '{id}' has no formula" (.missingFormula id)
        | some body =>
          let query ← propertyQuery limit parts id body
          return ⟨id, some query, .ok⟩

/-- The item of the child at an index of a set of properties. -/
def selectedProperty (options : Options) (child : Element) (index : Nat) : Traced Failure Item :=
  if options.selects index then
    (property options.maxDepth child).mapError (Failure.within (.property index))
  else do
    Traced.note .trace s!"skipping property at index {index}"
    return .skipped

/-- Goes into a `property-set` element and refuses an element of another kind. -/
def enterSet (root : Element) : Traced Failure Unit :=
  if root.tag ≠ .propertySet then
    refuseGrammar s!"missing property-set, found '{root.tag}'" (.unexpectedRoot root.name)
  else
    let count := root.children.length
    Traced.note .info s!"parsing {count} properties"

/-- Leaves a `property-set` element. -/
def leaveSet : Traced Failure Unit := Traced.note .info "parsing completed"

/-- The items of a `property-set` element. -/
def propertySet (options : Options) (root : Element) : Traced Failure (List Item) := do
  enterSet root
  let items ← root.children.zipIdx.mapM fun entry => selectedProperty options entry.1 entry.2
  leaveSet
  return items

end PetriQuery.Grammar
