import PetriQuery.Markup.Piece

/-!
# Events

The second stage of reading: the pieces of a document are decoded into events. The names of the open
elements are kept on a stack, so that an end tag can be compared with the element it closes. An
event that cannot be decoded stops the reading, and so does an end tag that the options refuse.
-/

set_option autoImplicit false

namespace PetriQuery.Markup

/-- What a reader reports of a document, decoded. -/
inductive Event where
  /-- The start of an element. -/
  | start (name : String) (attributes : List (String × String))
  /-- An element without content. -/
  | empty (name : String) (attributes : List (String × String))
  /-- The end of an element. -/
  | close (name : String)
  /-- A run of text, its references replaced. -/
  | text (content : String)
  /-- A CDATA section. -/
  | cdata (content : String)
  | comment
  | declaration
  /-- A processing instruction. -/
  | instruction
  | doctype
deriving DecidableEq, Repr

/-- A name as it stands in a message: nothing if it is not UTF-8. -/
def shownName (name : List UInt8) : String :=
  match Text.Utf8.decode name with
  | .ok text => text
  | .error _ => ""

/-- The decoded end of an element. -/
def closeEvent (name : List UInt8) : Except Fault Event :=
  match Text.Utf8.decode name with
  | .ok text => .ok (.close text)
  | .error fault => .error (.nameEncoding fault)

/-- The event of an end tag, which starts at `position`, and the names that stay open. The name of
the innermost element is the first one in `opened`. -/
def readEnd (options : Options) (position : Nat) (opened : List (List UInt8)) (name : List UInt8) :
    Except Fault (List Event × List (List UInt8)) :=
  match opened with
  | [] =>
    if options.allowUnmatchedEnds then (closeEvent name).map fun event => ([event], [])
    else .error (.illFormed position (.unmatchedEnd (shownName name)))
  | expected :: outer =>
    if options.checkEndNames && name ≠ expected then
      .error (.illFormed position (.mismatchedEnd (shownName expected) (shownName name)))
    else (closeEvent name).map fun event => ([event], outer)

/-- The events of a piece, which starts at `position`, and the names that are open after it. -/
def readPiece (options : Options) (position : Nat) (opened : List (List UInt8)) :
    Piece → Except Fault (List Event × List (List UInt8))
  | .text raw =>
    match Text.Utf8.decode raw with
    | .error fault => .error (.textEncoding fault)
    | .ok text =>
      match unescape text with
      | .error fault => .error (.badReference fault)
      | .ok content => .ok ([.text content], opened)
  | .cdata raw =>
    match Text.Utf8.decode raw with
    | .error fault => .error (.nameEncoding fault)
    | .ok content => .ok ([.cdata content], opened)
  | .comment => .ok ([.comment], opened)
  | .doctype => .ok ([.doctype], opened)
  | .declaration => .ok ([.declaration], opened)
  | .instruction => .ok ([.instruction], opened)
  | .startTag content =>
    (readTag content).map fun tag => ([.start tag.1 tag.2], tagName content :: opened)
  | .emptyTag content =>
    (readTag content).map fun tag =>
      if options.expandEmptyElements then ([.start tag.1 tag.2, .close tag.1], opened)
      else ([.empty tag.1 tag.2], opened)
  | .endTag name => readEnd options position opened name

/-- The events of the remaining pieces of a document, in which the pieces end with `fault?`. The
events so far are in `done`, the last one first. -/
def eventsFrom (options : Options) (fault? : Option Fault) (opened : List (List UInt8))
    (done : List Event) : List (Nat × Piece) → Reading Event
  | [] => ⟨done.reverse, fault?⟩
  | (position, piece) :: rest =>
    match readPiece options position opened piece with
    | .error fault => ⟨done.reverse, some fault⟩
    | .ok (events, opened) => eventsFrom options fault? opened (events.reverse ++ done) rest

/-- The events of a document. -/
def events (options : Options) (document : List UInt8) : Reading Event :=
  let read := pieces options document
  eventsFrom options read.fault? [] [] read.items

/-- The events of a document that may not be readable from where it is stored. -/
def eventsOf (options : Options) : Except FileFault (List UInt8) → Reading Event
  | .ok document => events options document
  | .error fault => ⟨[], some (.unreadable fault)⟩

end PetriQuery.Markup
