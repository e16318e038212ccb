import PetriQuery.Grammar.Property

/-!
# Sessions

A session holds the items of the documents that were read in it, in order. The items of a document
are pushed one by one while its properties are read; when one of them fails, the items that the
session held before the document are all that is kept.
-/

set_option autoImplicit false

namespace PetriQuery

open Document (Element)
open Grammar (Item Options)

/-- The bytes of a document, or why they cannot be read. -/
abbrev Source := Except FileFault (List UInt8)

/-- The root element of a document. -/
def readRoot (reading : Markup.Options) (source : Source) : Traced Failure Element :=
  (Element.ofEvents (Markup.eventsOf reading source)).mapError fun fault =>
    ⟨[.document], .tree fault⟩

/-- The items of a document. -/
def readItems (options : Options) (reading : Markup.Options) (source : Source) :
    Traced Failure (List Item) := do
  Grammar.propertySet options (← readRoot reading source)

/-- The items of the document at a path. The file has been opened, or cannot be. -/
def load (options : Options) (path : String) (opened : Except FileFault Source) :
    Traced Failure (List Item) := do
  Traced.note .info s!"parsing query file '{path}'"
  match opened with
  | .error fault => Traced.fail ⟨[.opening path], .file fault⟩
  | .ok source => (readItems options .default source).mapError (Failure.within (.file path))

/-- The items read so far, and the options with which further documents are read. -/
structure Session where
  options : Options
  items : List Item

namespace Session

/-- A session without items. -/
def start (options : Options) : Session := ⟨options, []⟩

/-- Puts an item behind the others. -/
def push (session : Session) (item : Item) : Session :=
  ⟨session.options, session.items ++ [item]⟩

/-- Puts the items that a document gives behind the others, if it gives any. -/
def append (session : Session) (outcome : Except Failure (List Item)) : Session :=
  match outcome with
  | .ok items => ⟨session.options, session.items ++ items⟩
  | .error _ => session

/-- Drops the items behind the first ones. -/
def truncate (session : Session) (count : Nat) : Session :=
  ⟨session.options, session.items.take count⟩

/-- Goes on in the session with the value of a computation. Without a value, the session stays as it
is. -/
def proceed {α : Type} (session : Session) (first : Traced Failure α)
    (next : α → Session × Traced Failure Unit) : Session × Traced Failure Unit :=
  match first.result with
  | .error failure => (session, ⟨first.log, .error failure⟩)
  | .ok value =>
    let after := next value
    (after.1, ⟨first.log ++ after.2.log, after.2.result⟩)

/-- Pushes the items of children at their indices, one after the other, up to the first that
fails. -/
def walk (session : Session) : List (Element × Nat) → Session × Traced Failure Unit
  | [] => (session, pure ())
  | (child, index) :: rest =>
    session.proceed (Grammar.selectedProperty session.options child index) fun item =>
      walk (session.push item) rest

/-- Pushes the items of the children of a `property-set` element. -/
def walkSet (session : Session) (root : Element) : Session × Traced Failure Unit :=
  session.proceed (Grammar.enterSet root) fun _ =>
    let walked := session.walk root.children.zipIdx
    (walked.1, walked.2 >>= fun _ => Grammar.leaveSet)

/-- Reads a tree. What was pushed of a tree that fails is dropped. -/
def addTree (session : Session) (root : Element) : Session × Traced Failure Unit :=
  let walked := session.walkSet root
  match walked.2.result with
  | .ok _ => walked
  -- The items of earlier documents come first, so their number says where to cut.
  | .error _ => (walked.1.truncate session.items.length, walked.2)

/-- Reads a document. -/
def addDocument (session : Session) (reading : Markup.Options) (source : Source) :
    Session × Traced Failure Unit :=
  session.proceed (readRoot reading source) session.addTree

end Session

/-! ## Histories -/

/-- What a session is asked to read. -/
inductive Call where
  /-- A tree. -/
  | tree (root : Element)
  /-- A document, with the way in which its markup is read. -/
  | document (reading : Markup.Options) (source : Source)

/-- The tree that a call hands over, unless it cannot be read. -/
def Call.root : Call → Traced Failure Element
  | .tree root => pure root
  | .document reading source => readRoot reading source

namespace Session

/-- Answers one call. -/
def call (session : Session) : Call → Session × Traced Failure Unit
  | .tree root => session.addTree root
  | .document reading source => session.addDocument reading source

/-- Answers calls one after the other. -/
def run (session : Session) : List Call → Session × List (Traced Failure Unit)
  | [] => (session, [])
  | call :: calls =>
    let one := session.call call
    let others := run one.1 calls
    (others.1, one.2 :: others.2)

end Session

end PetriQuery
