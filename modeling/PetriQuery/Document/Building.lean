import PetriQuery.Document.Element
import PetriQuery.Markup.Event
import PetriQuery.Trace

/-!
# Building the tree

The events of a document are put together into its root element. The elements whose end has not been
read yet are kept as frames, the innermost one first. A document has exactly one root element and
nothing but blank text, comments and declarations beside it; processing instructions and document
types are refused wherever they stand.
-/

set_option autoImplicit false

namespace PetriQuery.Document

open Markup (Event Reading)

/-- Why a document has no tree. -/
inductive TreeFault where
  /-- The document cannot be read. -/
  | markup (fault : Markup.Fault)
  | instruction
  | doctype
  | unexpectedEnd (name : String)
  | unclosedElements
  | noRoot
  | multipleRoots
  | textOutsideRoot
  | tooDeep (limit : Nat)
deriving DecidableEq, Repr

/-- The wording of a fault, with its causes. -/
def TreeFault.chain : TreeFault → List String
  | .markup fault => fault.chain
  | .instruction => ["Processing Instructions not supported"]
  | .doctype => ["DocType not supported"]
  | .unexpectedEnd name => [s!"unknown or unexpected end tag `{name}`"]
  | .unclosedElements => ["open tags have not been closed"]
  | .noRoot => ["document has no root element"]
  | .multipleRoots => ["document has multiple root elements"]
  | .textOutsideRoot => ["text content outside of the root element"]
  | .tooDeep limit => [s!"nesting exceeds the maximum depth of {limit}"]

/-- How many elements may be open at the same time. -/
def maxNesting : Nat := 4096

/-- An element whose end has not been read. Its children are in `children`, the last one first. -/
structure Frame where
  tag : Tag
  text : String
  attributes : Attributes
  children : List Element

/-- The frame of an element of which the start tag has been read. -/
def Frame.ofTag (name : String) (attributes : List (String × String)) : Frame :=
  ⟨.ofName name, "", .ofList attributes, []⟩

/-- The element of a frame. -/
def Frame.close (frame : Frame) : Element :=
  .mk frame.tag frame.text frame.attributes frame.children.reverse

/-- What has been built of a document: the open elements and the root element, if it has ended. -/
structure Builder where
  opened : List Frame
  root? : Option Element

namespace Builder

/-- Nothing has been built. -/
def initial : Builder := ⟨[], none⟩

/-- Opens an element. -/
def enter (builder : Builder) (frame : Frame) : Traced TreeFault Builder := do
  Traced.note .trace s!"start tag '{frame.tag}'"
  -- Inside of an open element, an element is a child and never a second root.
  if builder.opened.isEmpty && builder.root?.isSome then
    Traced.refuse s!"found element '{frame.tag}' after the root element" .multipleRoots
  else if maxNesting ≤ builder.opened.length then
    Traced.refuse s!"element nesting exceeds {maxNesting}" (.tooDeep maxNesting)
  else
    return ⟨frame :: builder.opened, builder.root?⟩

/-- Puts an ended element where it belongs: into the innermost open element, or to the root. -/
def place (builder : Builder) (element : Element) : Traced TreeFault Builder :=
  match builder.opened with
  | parent :: outer =>
    return ⟨{ parent with children := element :: parent.children } :: outer, builder.root?⟩
  | [] =>
    if builder.root?.isNone then return ⟨[], some element⟩
    else Traced.refuse s!"found element '{element.tag}' after the root element" .multipleRoots

/-- Ends the innermost open element, which has to have the given name. -/
def leave (builder : Builder) (name : String) : Traced TreeFault Builder :=
  let refusal : Traced TreeFault Builder :=
    Traced.refuse s!"unknown or unexpected end tag '{name}'" (.unexpectedEnd name)
  match builder.opened with
  | [] => refusal
  | frame :: outer =>
    if frame.tag.name = name then do
      Traced.note .trace s!"end tag '{name}'"
      place ⟨outer, builder.root?⟩ frame.close
    else refusal

/-- Adds to the text of the innermost open element, if there is one. -/
def write? (builder : Builder) (content : String) : Option Builder :=
  match builder.opened with
  | [] => none
  | frame :: outer =>
    some ⟨{ frame with text := frame.text ++ content } :: outer, builder.root?⟩

/-- Takes one event. -/
def step (builder : Builder) : Event → Traced TreeFault Builder
  | .start name attributes => builder.enter (.ofTag name attributes)
  | .close name => builder.leave name
  | .empty name attributes => do
    -- An empty element is never open, so the limit on nesting does not count it.
    let element := (Frame.ofTag name attributes).close
    Traced.note .trace s!"empty tag '{element.tag}'"
    builder.place element
  | .text content =>
    match builder.write? content with
    | some builder => return builder
    | none =>
      -- Beside the root element text may be blank; a CDATA section may not.
      if Text.isAllBlank content then return builder
      else Traced.refuse "text content outside of the root element" .textOutsideRoot
  | .cdata content =>
    match builder.write? content with
    | some builder => return builder
    | none => Traced.refuse "CData outside of the root element" .textOutsideRoot
  | .comment | .declaration => return builder
  | .instruction => Traced.refuse "Processing Instructions not supported" .instruction
  | .doctype => Traced.refuse "DocType not supported" .doctype

/-- The root element at the end of the document. -/
def finish (builder : Builder) : Traced TreeFault Element :=
  match builder.opened with
  | frame :: _ => Traced.refuse s!"unclosed tag '{frame.tag}'" .unclosedElements
  | [] =>
    match builder.root? with
    | some root => return root
    | none => Traced.fail .noRoot

end Builder

/-- The root element of the document with the given events. -/
def Element.ofEvents (reading : Reading Event) : Traced TreeFault Element := do
  let builder ← Traced.foldFrom Builder.step [] .initial reading.items
  match reading.fault? with
  | some fault => Traced.fail (.markup fault)
  | none => builder.finish

/-- The root element of a document. -/
def Element.read (options : Markup.Options) (document : List UInt8) : Traced TreeFault Element :=
  Element.ofEvents (Markup.events options document)

end PetriQuery.Document
