import PetriQuery.Proofs.Document.Depth
import PetriQuery.Proofs.Markup.Scanning
import Mathlib.Data.List.Nodup

/-!
# Writing documents

An element is written as a start tag with its attributes in any order, its content and an end tag.
The content is the text of the element, in one or more runs, and its children in their order, with
comments anywhere between them. Whatever is chosen, reading gives back the element
(`Element.read_writings`).

A run of text may be written in several pieces without anything between them, and then it is read in
one. The induction on the writing of a content therefore has the pieces that have been written but
not read yet as a further text in front (`WritesContent.reads`).
-/

set_option autoImplicit false

namespace PetriQuery.Document

open Markup (Event Reads byteLess bytesOf escape startChars endChars commentChars)
open Text (IsWord isLetter)
open Element (depthList)

/-! ## Writings -/

/-- The characters are a content that has the text and the children. A comment may hold anything but
a `>`: whether hyphens stand in it is not checked. -/
inductive WritesContent : String → List Element → List Char → Prop
  | nil : WritesContent "" [] []
  | text {text children chars} (piece : String) :
      WritesContent text children chars →
      WritesContent (piece ++ text) children (escape piece.toList ++ chars)
  | comment {text children chars} (body : List Char) :
      '>' ∉ body → WritesContent text children chars →
      WritesContent text children (commentChars body ++ chars)
  | element {text children chars inside} (e : Element) (entries : List (String × String)) :
      entries.Perm e.attributes.entries → WritesContent e.text e.children inside →
      WritesContent text children chars →
      WritesContent text (e :: children)
        (startChars e.name entries ++ (inside ++ (endChars e.name ++ chars)))

/-- The document is the element, with comments before and after it. -/
def Writes (e : Element) (document : String) : Prop :=
  ∃ (before after : List (List Char)) (entries : List (String × String)) (inside : List Char),
    document.toList = before.flatMap commentChars
      ++ (startChars e.name entries ++ (inside ++ (endChars e.name ++ after.flatMap commentChars)))
    ∧ (∀ body ∈ before ++ after, '>' ∉ body)
    ∧ entries.Perm e.attributes.entries ∧ WritesContent e.text e.children inside

namespace Element

mutual

/-- The writing of an element without comments: the start tag with the attributes in the order of
their keys, the text, the children and the end tag. -/
def written : Element → List Char
  | mk tag text attributes children =>
    startChars tag.name attributes.entries
      ++ (escape text.toList ++ writtenList children ++ endChars tag.name)

/-- The writings of elements one after the other. -/
def writtenList : List Element → List Char
  | [] => []
  | child :: rest => child.written ++ writtenList rest

end

/-- The names and the keys in an element and in everything inside of it are words. -/
inductive IsPlain : Element → Prop
  | mk {e : Element} :
      IsWord isLetter e.name.toList →
      (∀ entry ∈ e.attributes.entries, IsWord isLetter entry.1.toList) →
      (∀ child ∈ e.children, IsPlain child) → IsPlain e

/-- The kind of an element is the one that its name has, and so it is with everything inside of it.
No other elements are read (`isNamed_of_read`): a name of the language is never the name of an
element of another kind. -/
inductive IsNamed : Element → Prop
  | mk {e : Element} :
      Tag.ofName e.name = e.tag → (∀ child ∈ e.children, IsNamed child) → IsNamed e

theorem depth_eq (e : Element) : e.depth = depthList e.children + 1 := by
  cases e with
  | mk tag text attributes children => rw [depth, Element.children]

mutual

/-- The writing of an element is the start tag, a content and the end tag. -/
theorem exists_written (e : Element) : ∃ inside, WritesContent e.text e.children inside
    ∧ e.written = startChars e.name e.attributes.entries ++ (inside ++ endChars e.name) := by
  cases e with
  | mk tag text attributes children =>
    refine ⟨escape text.toList ++ writtenList children, ?_, ?_⟩
    · have inside := WritesContent.text text (writesContent_writtenList children)
      rwa [String.append_empty] at inside
    · rw [written]
      rfl

/-- The writings of elements are a content. -/
theorem writesContent_writtenList (es : List Element) : WritesContent "" es (writtenList es) := by
  cases es with
  | nil =>
    rw [writtenList]
    exact .nil
  | cons e es =>
    obtain ⟨inside, content, written⟩ := exists_written e
    rw [writtenList, written, List.append_assoc, List.append_assoc]
    exact .element e _ (.refl _) content (writesContent_writtenList es)

end

/-- An element is written as its own writing without comments. -/
theorem writes_written (e : Element) : Writes e (String.ofList e.written) := by
  obtain ⟨inside, content, written⟩ := exists_written e
  refine ⟨[], [], e.attributes.entries, inside, ?_, List.forall_mem_nil _, .refl _, content⟩
  rw [String.toList_ofList, written, List.flatMap_nil, List.nil_append, List.append_nil]

end Element

/-! ## Attributes in any order -/

namespace Attributes

/-- Where no two entries have the same key, an entry is found for its key. -/
theorem find?_eq_some_iff {entries : List (String × String)} {key : String}
    {entry : String × String} (distinct : (entries.map Prod.fst).Nodup) :
    (entries.find? fun other => other.1 = key) = some entry ↔ entry ∈ entries ∧ entry.1 = key := by
  constructor
  · intro found
    exact ⟨List.mem_of_find?_eq_some found, by simpa using List.find?_some found⟩
  · rintro ⟨member, rfl⟩
    have some : (entries.find? fun other => other.1 = entry.1).isSome = true := by
      rw [List.find?_isSome]
      exact ⟨entry, member, decide_eq_true rfl⟩
    obtain ⟨other, found⟩ := Option.isSome_iff_exists.1 some
    have same : other.1 = entry.1 := by simpa using List.find?_some found
    rw [found, List.inj_on_of_nodup_map distinct (List.mem_of_find?_eq_some found) member same]

/-- Entries with different keys are all found in the map to which they are added. -/
theorem get?_foldl_insert {entries : List (String × String)}
    (distinct : (entries.map Prod.fst).Nodup) (a : Attributes) (key : String) :
    (entries.foldl (fun a entry => a.insert entry.1 entry.2) a).get? key
      = ((entries.find? fun entry => entry.1 = key).map Prod.snd).or (a.get? key) := by
  induction entries generalizing a with
  | nil => rfl
  | cons entry entries ih =>
    obtain ⟨new, distinct⟩ := List.nodup_cons.1 distinct
    rw [List.foldl_cons, ih distinct, get?_insert]
    by_cases same : entry.1 = key
    · subst same
      have notLater : (entries.find? fun other => other.1 = entry.1) = none := by
        rw [List.find?_eq_none]
        intro other member later
        exact new (of_decide_eq_true later ▸ List.mem_map_of_mem member)
      rw [notLater, find?_head, if_pos rfl]
      rfl
    · rw [List.find?_cons_of_neg (by simpa using same), if_neg same]

/-- No two entries of a map have the same key. -/
theorem nodup_keys (a : Attributes) : (a.entries.map Prod.fst).Nodup := by
  rw [List.Nodup, List.pairwise_map]
  refine a.sorted.imp ?_
  intro first second before same
  rw [same] at before
  exact String.lt_irrefl _ before

/-- The entries of a map give that map, in whatever order they are added. -/
theorem ofList_of_perm {a : Attributes} {entries : List (String × String)}
    (perm : entries.Perm a.entries) : ofList entries = a := by
  have distinct : (entries.map Prod.fst).Nodup := (perm.map Prod.fst).nodup_iff.2 a.nodup_keys
  apply ext_get?
  intro key
  have same : (entries.find? fun entry => entry.1 = key)
      = a.entries.find? fun entry => entry.1 = key := by
    apply Option.ext
    intro entry
    rw [find?_eq_some_iff distinct, find?_eq_some_iff a.nodup_keys, perm.mem_iff]
  rw [ofList, get?_foldl_insert distinct, same]
  exact Option.or_none

end Attributes

/-! ## Plain elements -/

namespace Element

/-- The children of a plain element are plain. -/
theorem IsPlain.children {e : Element} (plain : e.IsPlain) :
    ∀ child ∈ e.children, child.IsPlain := by
  obtain ⟨-, -, children⟩ := plain
  exact children

/-- The attributes of a plain element can be written into one tag, in any order. -/
theorem IsPlain.areAttributes {e : Element} (plain : e.IsPlain)
    {entries : List (String × String)} (perm : entries.Perm e.attributes.entries) :
    Markup.AreAttributes entries := by
  obtain ⟨-, keys, -⟩ := plain
  constructor
  · intro entry member
    exact keys entry (perm.mem_iff.1 member)
  · exact (perm.map Prod.fst).nodup_iff.2 e.attributes.nodup_keys

/-- The children of a named element are named. -/
theorem IsNamed.children {e : Element} (named : e.IsNamed) :
    ∀ child ∈ e.children, child.IsNamed := by
  obtain ⟨-, children⟩ := named
  exact children

/-- A named element is the one of its tag and its content. -/
theorem IsNamed.isOf {e : Element} (named : e.IsNamed) {entries : List (String × String)}
    (perm : entries.Perm e.attributes.entries) : e.IsOf e.name entries e.text e.children := by
  obtain ⟨kind, -⟩ := named
  rw [isOf_iff, ofTag, kind, Attributes.ofList_of_perm perm]
  cases e with
  | mk tag text attributes children => rfl

/-- The element of a tag is named, if its children are. -/
theorem IsOf.isNamed {e : Element} {name : String} {attributes : List (String × String)}
    {text : String} {children : List Element} (h : e.IsOf name attributes text children)
    (named : ∀ child ∈ children, child.IsNamed) : e.IsNamed := by
  obtain rfl := isOf_iff.1 h
  refine .mk ?_ named
  rw [Element.name, ofTag, Element.tag, Tag.name_ofName]

end Element

/-- The children that a row of events spells are named. -/
theorem SpellsContent.isNamed {levels : Nat} {events : List Event} {text : String}
    {children : List Element} (h : SpellsContent levels events text children) :
    ∀ child ∈ children, child.IsNamed := by
  induction h with
  | nil => exact List.forall_mem_nil _
  | text _ _ ih | cdata _ _ ih | comment _ ih | declaration _ ih => exact ih
  | empty name attributes own _ ih =>
    rw [List.forall_mem_append, List.forall_mem_singleton]
    exact ⟨ih, own.isNamed (List.forall_mem_nil _)⟩
  | element name attributes own _ _ ih ih' =>
    rw [List.forall_mem_append, List.forall_mem_singleton]
    exact ⟨ih, own.isNamed ih'⟩

/-- Every element that is read is named. -/
theorem Element.isNamed_of_read {options : Markup.Options} {document : List UInt8} {root : Element}
    (read : (Element.read options document).result = .ok root) : root.IsNamed := by
  rw [Element.read, ofEvents_reading_eq_ok_iff] at read
  obtain ⟨-, before, one, after, -, -, spells, -⟩ := read
  exact spells.content.isNamed root List.mem_cons_self

/-! ## Reading what is written -/

/-- In front of the rest, the part is read as events that spell a content with the text and the
children. -/
def ReadsContent (levels : Nat) (part rest : List UInt8) (opened : List (List UInt8))
    (text : String) (children : List Element) : Prop :=
  ∃ events, Reads part rest opened opened events ∧ SpellsContent levels events text children

section Reading

variable {levels : Nat} {part part' rest : List UInt8} {opened : List (List UInt8)}
  {text text' : String} {children children' : List Element}

/-- Contents that are read one after the other are read as a content. -/
theorem ReadsContent.append (h : ReadsContent levels part (part' ++ rest) opened text children)
    (h' : ReadsContent levels part' rest opened text' children') :
    ReadsContent levels (part ++ part') rest opened (text ++ text') (children ++ children') := by
  obtain ⟨events, reads, spells⟩ := h
  obtain ⟨events', reads', spells'⟩ := h'
  exact ⟨events ++ events', reads.append reads', spells.append spells'⟩

/-- A comment is a content without text and children. -/
theorem readsContent_comment {body : List Char} (closed : '>' ∉ body) :
    ReadsContent levels (bytesOf (commentChars body)) rest opened "" [] :=
  ⟨[.comment], Markup.reads_commentChars closed, .comment .nil⟩

/-- A text in front of a `<` or of the end is a content without children. -/
theorem readsContent_text (cs : List Char) (stop : ∀ b ∈ rest.head?, b = byteLess) :
    ReadsContent levels (bytesOf (escape cs)) rest opened (String.ofList cs) [] := by
  by_cases none : cs = []
  · -- No characters are no run of text, not an empty one.
    subst none
    exact ⟨[], .nil, .nil⟩
  · refine ⟨[.text (String.ofList cs)], Markup.reads_escape none stop, ?_⟩
    have one : SpellsContent levels ([] ++ [.text (String.ofList cs)]) ("" ++ String.ofList cs)
        [] := .text (String.ofList cs) .nil
    rwa [List.nil_append, String.empty_append] at one

/-- The tags of an element around a content with its text and its children are read as the element,
at one level more. -/
theorem reads_element {e : Element} (named : e.IsNamed) (plain : e.IsPlain)
    {entries : List (String × String)} (perm : entries.Perm e.attributes.entries)
    {inside : List Char}
    (content : ReadsContent levels (bytesOf inside) (bytesOf (endChars e.name) ++ rest)
      (bytesOf e.name.toList :: opened) e.text e.children) :
    ∃ events,
      Reads (bytesOf (startChars e.name entries ++ (inside ++ endChars e.name))) rest opened opened
        events
      ∧ SpellsElement (levels + 1) events e := by
  obtain ⟨events, reads, spells⟩ := content
  have attributes := plain.areAttributes perm
  have spelled := SpellsElement.element e.name entries (named.isOf perm) spells
  obtain ⟨word, -, -⟩ := plain
  refine ⟨_, ?_, spelled⟩
  rw [Markup.bytesOf_append, Markup.bytesOf_append]
  exact (Markup.reads_startChars word attributes).append (reads.append (Markup.reads_endChars word))

/-- What begins with a `<` ends a run of text. -/
theorem stops_of_head? (begins : part.head? = some byteLess) :
    ∀ b ∈ (part ++ rest).head?, b = byteLess := by
  intro b first
  cases part with
  | nil => cases begins
  | cons c part =>
    obtain rfl := Option.some.inj begins
    exact (Option.some.inj first).symm

/-- A text in front of what begins with a `<` is read before it. -/
theorem ReadsContent.behind {chars : List Char}
    (h : ReadsContent levels (bytesOf chars) rest opened text children)
    (begins : (bytesOf chars).head? = some byteLess) (pending : List Char) :
    ReadsContent levels (bytesOf (escape pending ++ chars)) rest opened
      (String.ofList pending ++ text) children := by
  have both := (readsContent_text pending (stops_of_head? begins)).append h
  rwa [← Markup.bytesOf_append] at both

/-- Nothing is read before a content if no text is pending. -/
theorem ReadsContent.of_nothing {chars : List Char}
    (h : ReadsContent levels (bytesOf (escape [] ++ chars)) rest opened (String.ofList [] ++ text)
      children) : ReadsContent levels (bytesOf chars) rest opened text children := by
  rwa [String.ofList_nil, String.empty_append] at h

/-- What is written for a content is read as that content, behind a text that is still pending. The
induction is on how the content is written. A piece of text is added to what is pending; everything
else begins with a `<` and ends the run. -/
theorem WritesContent.reads {chars : List Char} (h : WritesContent text children chars)
    (named : ∀ child ∈ children, child.IsNamed) (plain : ∀ child ∈ children, child.IsPlain)
    (shallow : depthList children ≤ levels) (pending : List Char)
    (stop : ∀ b ∈ rest.head?, b = byteLess) :
    ReadsContent levels (bytesOf (escape pending ++ chars)) rest opened
      (String.ofList pending ++ text) children := by
  induction h generalizing levels pending rest opened with
  | nil =>
    rw [List.append_nil, String.append_empty]
    exact readsContent_text pending stop
  | text piece _ ih =>
    have read : ReadsContent levels _ rest opened _ _ :=
      ih named plain shallow (pending ++ piece.toList) stop
    rwa [Markup.escape_append, List.append_assoc, String.ofList_append, String.ofList_toList,
      String.append_assoc] at read
  | @comment text children chars body closed _ ih =>
    have later : ReadsContent levels (bytesOf chars) rest opened text children :=
      .of_nothing (ih named plain shallow [] stop)
    -- The comment ends the run that was pending, and a new one begins behind it.
    have both := (readsContent_comment closed).append later
    rw [← Markup.bytesOf_append, String.empty_append, List.nil_append] at both
    exact both.behind rfl pending
  | @element text children chars inside e entries perm _ _ ih ih' =>
    obtain ⟨kind, kinds⟩ := List.forall_mem_cons.1 named
    obtain ⟨head, tail⟩ := List.forall_mem_cons.1 plain
    rw [depthList, Element.depth_eq, Nat.max_le] at shallow
    obtain ⟨within, shallow⟩ := shallow
    -- The element has one of the levels, and what is inside of it has the others.
    obtain ⟨levels, rfl⟩ := Nat.exists_eq_add_of_le' (Nat.le_trans (Nat.le_add_left 1 _) within)
    have content : ReadsContent levels (bytesOf inside)
        (bytesOf (endChars e.name) ++ (bytesOf chars ++ rest)) (bytesOf e.name.toList :: opened)
        e.text e.children :=
      .of_nothing (ih kind.children head.children (Nat.le_of_succ_le_succ within) []
        (stops_of_head? rfl))
    obtain ⟨events, reads, spells⟩ := reads_element kind head perm content
    have later : ReadsContent (levels + 1) (bytesOf chars) rest opened text children :=
      .of_nothing (ih' kinds tail shallow [] stop)
    have both := ReadsContent.append ⟨events, reads, spells.content⟩ later
    rw [← Markup.bytesOf_append, String.empty_append, List.singleton_append, List.append_assoc,
      List.append_assoc] at both
    exact both.behind rfl pending

end Reading

/-- Comments in front of the root element or behind it are read as comments. -/
theorem reads_comments {bodies : List (List Char)} (closed : ∀ body ∈ bodies, '>' ∉ body)
    (rest : List UInt8) (opened : List (List UInt8)) :
    ∃ events, Reads (bytesOf (bodies.flatMap commentChars)) rest opened opened events
      ∧ ∀ event ∈ events, IsBeside event := by
  induction bodies with
  | nil => exact ⟨[], .nil, List.forall_mem_nil _⟩
  | cons body bodies ih =>
    obtain ⟨head, tail⟩ := List.forall_mem_cons.1 closed
    obtain ⟨events, reads, beside⟩ := ih tail
    refine ⟨.comment :: events, ?_, List.forall_mem_cons.2 ⟨trivial, beside⟩⟩
    rw [List.flatMap_cons, Markup.bytesOf_append]
    exact (Markup.reads_commentChars head).append reads

/-- A writing of an element is read as that element, if it does not nest too deep. -/
theorem Writes.read {e : Element} {document : String} (h : Writes e document) (named : e.IsNamed)
    (plain : e.IsPlain) (shallow : e.depth ≤ maxNesting) :
    (Element.read .default (Text.Utf8.encode document)).result = .ok e := by
  obtain ⟨before, after, entries, inside, written, closed, perm, content⟩ := h
  obtain ⟨closedBefore, closedAfter⟩ := List.forall_mem_append.1 closed
  -- The root element has one level of those that the limit admits.
  obtain ⟨levels, full⟩ : ∃ levels, maxNesting = levels + 1 := ⟨4095, rfl⟩
  rw [Element.depth_eq, full] at shallow
  obtain ⟨back, readsBack, besideBack⟩ := reads_comments closedAfter [] []
  have inner : ReadsContent levels (bytesOf inside)
      (bytesOf (endChars e.name) ++ (bytesOf (after.flatMap commentChars) ++ []))
      [bytesOf e.name.toList] e.text e.children :=
    .of_nothing (content.reads named.children plain.children (Nat.le_of_succ_le_succ shallow) []
      (stops_of_head? rfl))
  obtain ⟨one, readsOne, spells⟩ := reads_element named plain perm inner
  obtain ⟨front, readsFront, besideFront⟩ := reads_comments closedBefore
    (bytesOf (startChars e.name entries ++ (inside ++ endChars e.name))
      ++ bytesOf (after.flatMap commentChars) ++ []) []
  have bytes : Text.Utf8.encode document
      = bytesOf (before.flatMap commentChars)
        ++ (bytesOf (startChars e.name entries ++ (inside ++ endChars e.name))
          ++ bytesOf (after.flatMap commentChars)) := by
    rw [Text.Utf8.encode, written, ← bytesOf]
    simp only [Markup.bytesOf_append, List.append_assoc]
  have begins : (Text.Utf8.encode document).head? = some byteLess := by
    rw [bytes]
    cases before with
    | nil => rfl
    | cons body before => rfl
  have reads := readsFront.append (readsOne.append readsBack)
  rw [← bytes] at reads
  rw [Element.read, reads.events begins, ofEvents_eq_ok_iff]
  refine ⟨front, one, back, (List.append_assoc front one back).symm, besideFront, ?_, besideBack⟩
  rwa [full]

/-- **What is written of an element is read as that element.** An element that nests no deeper than
the limit can be written, if its names are words; every writing of it is read as the element; and so
two writings of it, whatever the order of their attributes and wherever comments stand in them, are
read alike. -/
theorem Element.read_writings {e : Element} (named : e.IsNamed) (plain : e.IsPlain)
    (shallow : e.depth ≤ maxNesting) :
    Writes e (String.ofList e.written)
    ∧ (∀ document, Writes e document →
      (Element.read .default (Text.Utf8.encode document)).result = .ok e)
    ∧ ∀ document document', Writes e document → Writes e document' →
      (Element.read .default (Text.Utf8.encode document)).result
        = (Element.read .default (Text.Utf8.encode document')).result := by
  refine ⟨e.writes_written, fun document writes => writes.read named plain shallow, ?_⟩
  intro document document' writes writes'
  rw [writes.read named plain shallow, writes'.read named plain shallow]

/-- A place with two attributes and a child, of which text and values have to be escaped. -/
def annotatedPlace : Element :=
  .mk .place "p&q" ⟨[("a", "1"), ("b", "x>y")], by decide⟩ [.mk .alwaysTrue "" .empty []]

/-- The attributes are written in the other order and a comment stands within the text. -/
theorem Element.read_writings_of_annotatedPlace :
    annotatedPlace.IsNamed ∧ annotatedPlace.IsPlain ∧ annotatedPlace.depth ≤ maxNesting
    ∧ (Element.read .default (Text.Utf8.encode
        "<place b=\"x&gt;y\" a=\"1\">p<!-- c -->&amp;q<true></true></place>")).result
      = .ok annotatedPlace := by
  have named : annotatedPlace.IsNamed := by
    refine .mk rfl ?_
    rw [annotatedPlace, Element.children, List.forall_mem_singleton]
    exact .mk rfl (List.forall_mem_nil _)
  have plain : annotatedPlace.IsPlain := by
    refine .mk (by decide) (by decide) ?_
    rw [annotatedPlace, Element.children, List.forall_mem_singleton]
    exact .mk (by decide) (List.forall_mem_nil _) (List.forall_mem_nil _)
  have shallow : annotatedPlace.depth ≤ maxNesting := by
    decide
  refine ⟨named, plain, shallow, (Element.read_writings named plain shallow).2.1 _ ?_⟩
  have child : WritesContent "" annotatedPlace.children
      (startChars "true" [] ++ ([] ++ (endChars "true" ++ []))) :=
    .element (.mk .alwaysTrue "" .empty []) [] .nil .nil .nil
  have content : WritesContent annotatedPlace.text annotatedPlace.children _ :=
    .text "p" (.comment " c ".toList (by decide) (.text "&q" child))
  exact ⟨[], [], [("b", "x>y"), ("a", "1")], _, by decide, List.forall_mem_nil _, .swap _ _ _,
    content⟩

end PetriQuery.Document
