import PetriQuery.Markup.Attribute
import PetriQuery.Markup.Options

/-!
# Pieces of markup

The first stage of reading: a document falls into runs of text and constructs that an opening `<`
and a closing `>` enclose. Which `>` closes a construct depends on its kind, which the first bytes
after the `<` decide. Nothing is decoded here and names are not compared; each piece carries the
position at which it starts.

Main facts: a scan leaves less of the input than it is given (`length_of_scan`).
-/

set_option autoImplicit false

namespace PetriQuery.Markup

/-- A piece of a document. -/
inductive Piece where
  | text (raw : List UInt8)
  | cdata (raw : List UInt8)
  | comment
  | doctype
  /-- The declaration with which a document may start. -/
  | declaration
  /-- A processing instruction. -/
  | instruction
  | startTag (content : List UInt8)
  /-- An empty-element tag, without the slash at its end. -/
  | emptyTag (content : List UInt8)
  | endTag (name : List UInt8)
deriving DecidableEq, Repr

/-- What was read up to the end of a document or up to a fault. -/
structure Reading (α : Type) where
  items : List α
  fault? : Option Fault

/-! ## Where constructs close -/

/-- How many bytes `marker` the bytes so far end with. -/
def countMarker (marker : UInt8) (count : Nat) (b : UInt8) : Nat :=
  if b = marker then count + 1 else 0

/-- The state of a comment: how many bytes have been passed and how many hyphens they end with. -/
def stepComment (state : Nat × Nat) (b : UInt8) : Nat × Nat :=
  (state.1 + 1, countMarker byteHyphen state.2 b)

/-- The state of a document type: how many inner `<` are not closed yet. -/
def stepDoctype (depth : Nat) (b : UInt8) : Nat :=
  if b = byteLess then depth + 1 else if b = byteGreater then depth - 1 else depth

/-- The state of a tag: the quotation mark of the value that is open. -/
def stepTag (quote : Option UInt8) (b : UInt8) : Option UInt8 :=
  match quote with
  | none => if b = byteQuote ∨ b = byteApostrophe then some b else none
  | some q => if b = q then none else some q

/-- Where two hyphens follow each other in the content of a comment, the hyphens that close it
counted in. The position counts from the last single hyphen before, or else from the start. -/
def doubleHyphen? (position : Nat) : List UInt8 → Option Nat
  | [] => none
  | [b] => if b = byteHyphen then some position else none
  | b :: c :: rest =>
    if b = byteHyphen then
      if c = byteHyphen then some position else doubleHyphen? 0 (c :: rest)
    else doubleHyphen? (position + 1) (c :: rest)

/-! ## Scanning -/

/-- What a scan finds: a piece, the position after it and the rest of the input. -/
structure Found where
  piece : Piece
  next : Nat
  rest : List UInt8

/-- A comment; the input follows `<!`, which starts at `start`. -/
def scanComment (options : Options) (start : Nat) (input : List UInt8) : Except Fault Found :=
  -- Four bytes at least, or the two hyphens of the opening would close `<!-->`.
  match cut stepComment (fun state => 2 ≤ state.2 && 4 ≤ state.1) (0, 0) input with
  | none => .error (.malformed start .unclosedComment)
  | some (content, rest) =>
    if !(ascii "--").isPrefixOf content then .error (.malformed start .unclosedComment)
    else
      let body := (content.drop 2).take (content.length - 4)
      match if options.checkComments then doubleHyphen? 0 body else none with
      | some position => .error (.illFormed (start + 4 + position) .doubleHyphenInComment)
      | none => .ok ⟨.comment, start + 3 + content.length, rest⟩

/-- A CDATA section; the input follows `<!`, which starts at `start`. -/
def scanCData (start : Nat) (input : List UInt8) : Except Fault Found :=
  match cut (countMarker 0x5d) (fun count => 2 ≤ count) 0 input with
  | none => .error (.malformed start .unclosedCData)
  | some (content, rest) =>
    if !(ascii "[CDATA[").isPrefixOf content then .error (.malformed start .unclosedCData)
    else
      .ok ⟨.cdata ((content.drop 7).take (content.length - 9)), start + 3 + content.length, rest⟩

/-- A document type; the input follows `<!`, which starts at `start`. -/
def scanDoctype (start : Nat) (input : List UInt8) : Except Fault Found :=
  match cut stepDoctype (fun depth => depth = 0) 0 input with
  | none => .error (.malformed start .unclosedDoctype)
  | some (content, rest) =>
    if !(ascii "DOCTYPE").isPrefixOf (content.map upper) then
      .error (.malformed start .unclosedDoctype)
    else if (content.drop 7).all isSpace then
      .error (.illFormed (start + 2 + content.length) .missingDoctypeName)
    else .ok ⟨.doctype, start + 3 + content.length, rest⟩

/-- What follows `<!`, which starts at `start`. -/
def scanBang (options : Options) (start : Nat) (input : List UInt8) : Except Fault Found :=
  match input.head? with
  | some b =>
    if b = byteBracket then scanCData start input
    else if b = byteHyphen then scanComment options start input
    else if upper b = 0x44 then scanDoctype start input
    else .error (.malformed start .invalidBangMarkup)
  | none => .error (.malformed start .invalidBangMarkup)

/-- Whether the content of an instruction makes it a declaration. -/
def isDeclaration (content : List UInt8) : Bool :=
  tagName content = ascii "xml"

/-- What follows `<?`, which starts at `start`. A `>` right after it finds the question mark of the
opening and closes nothing. -/
def scanInstruction (start : Nat) (input : List UInt8) : Except Fault Found :=
  match cut (fun _ b => b == byteQuestion) (fun closing : Bool => closing) true input with
  | none => .error (.malformed start .unclosedInstruction)
  | some (content, rest) =>
    if content.isEmpty then .error (.malformed start .unclosedInstruction)
    else
      let piece := if isDeclaration content.dropLast then Piece.declaration else .instruction
      .ok ⟨piece, start + 3 + content.length, rest⟩

/-- The name in an end tag. Spaces after it are no part of it unless nothing else is there. -/
def endName (options : Options) (content : List UInt8) : List UInt8 :=
  if options.trimEndNames && !content.all isSpace then dropTrailingSpace content else content

/-- An end tag; the input follows `</`, which starts at `start`. -/
def scanEnd (options : Options) (start : Nat) (input : List UInt8) : Except Fault Found :=
  match cut stepTag Option.isNone none input with
  | none => .error (.malformed start .unclosedTag)
  | some (content, rest) =>
    .ok ⟨.endTag (endName options content), start + 3 + content.length, rest⟩

/-- A start tag or an empty-element tag; the input follows `<`, which lies at `start`. -/
def scanTag (start : Nat) (input : List UInt8) : Except Fault Found :=
  match cut stepTag Option.isNone none input with
  | none => .error (.malformed start .unclosedTag)
  | some (content, rest) =>
    let piece :=
      if content.getLast? = some byteSlash then Piece.emptyTag content.dropLast
      else .startTag content
    .ok ⟨piece, start + 2 + content.length, rest⟩

/-- What follows `<`, which lies at `start`. -/
def scan (options : Options) (start : Nat) : List UInt8 → Except Fault Found
  | byteBang :: rest => scanBang options start rest
  | byteQuestion :: rest => scanInstruction start rest
  | byteSlash :: rest => scanEnd options start rest
  | input => scanTag start input

/-- A run of text without the spaces that the options drop. -/
def trimText (options : Options) (raw : List UInt8) : List UInt8 :=
  let raw := if options.trimTextStart then raw.dropWhile isSpace else raw
  if options.trimTextEnd then dropTrailingSpace raw else raw

/-! ## Every scan consumes input -/

/-- A comment takes at least the byte that closes it. -/
theorem length_of_scanComment {options : Options} {start : Nat} {input : List UInt8} {found : Found}
    (h : scanComment options start input = .ok found) : found.rest.length < input.length := by
  simp only [scanComment] at h
  split at h
  · cases h
  · next closed =>
    have shorter := length_of_cut closed
    split at h
    · cases h
    · split at h
      · cases h
      · obtain rfl := Except.ok.inj h
        simp only
        omega

/-- A CDATA section takes at least the byte that closes it. -/
theorem length_of_scanCData {start : Nat} {input : List UInt8} {found : Found}
    (h : scanCData start input = .ok found) : found.rest.length < input.length := by
  simp only [scanCData] at h
  split at h
  · cases h
  · next closed =>
    have shorter := length_of_cut closed
    split at h
    · cases h
    · obtain rfl := Except.ok.inj h
      simp only
      omega

/-- A document type takes at least the byte that closes it. -/
theorem length_of_scanDoctype {start : Nat} {input : List UInt8} {found : Found}
    (h : scanDoctype start input = .ok found) : found.rest.length < input.length := by
  simp only [scanDoctype] at h
  split at h
  · cases h
  · next closed =>
    have shorter := length_of_cut closed
    split at h
    · cases h
    · split at h
      · cases h
      · obtain rfl := Except.ok.inj h
        simp only
        omega

/-- Whatever follows `<!` takes at least the byte that closes it. -/
theorem length_of_scanBang {options : Options} {start : Nat} {input : List UInt8} {found : Found}
    (h : scanBang options start input = .ok found) : found.rest.length < input.length := by
  simp only [scanBang] at h
  split at h
  · split at h
    · exact length_of_scanCData h
    · split at h
      · exact length_of_scanComment h
      · split at h
        · exact length_of_scanDoctype h
        · cases h
  · cases h

/-- An instruction takes at least the byte that closes it. -/
theorem length_of_scanInstruction {start : Nat} {input : List UInt8} {found : Found}
    (h : scanInstruction start input = .ok found) : found.rest.length < input.length := by
  simp only [scanInstruction] at h
  split at h
  · cases h
  · next closed =>
    have shorter := length_of_cut closed
    split at h
    · cases h
    · obtain rfl := Except.ok.inj h
      simp only
      omega

/-- An end tag takes at least the byte that closes it. -/
theorem length_of_scanEnd {options : Options} {start : Nat} {input : List UInt8} {found : Found}
    (h : scanEnd options start input = .ok found) : found.rest.length < input.length := by
  simp only [scanEnd] at h
  split at h
  · cases h
  · next closed =>
    have shorter := length_of_cut closed
    obtain rfl := Except.ok.inj h
    simp only
    omega

/-- A start tag takes at least the byte that closes it. -/
theorem length_of_scanTag {start : Nat} {input : List UInt8} {found : Found}
    (h : scanTag start input = .ok found) : found.rest.length < input.length := by
  simp only [scanTag] at h
  split at h
  · cases h
  · next closed =>
    have shorter := length_of_cut closed
    obtain rfl := Except.ok.inj h
    simp only
    omega

/-- Whatever a scan finds, it leaves less of the input than it is given. -/
theorem length_of_scan {options : Options} {start : Nat} {input : List UInt8} {found : Found}
    (h : scan options start input = .ok found) : found.rest.length ≤ input.length := by
  unfold scan at h
  split at h
  -- In the first three cases the byte that tells the kind is consumed as well. A tag has no such
  -- byte: its name begins right after the `<`.
  · exact Nat.le_succ_of_le (Nat.le_of_lt (length_of_scanBang h))
  · exact Nat.le_succ_of_le (Nat.le_of_lt (length_of_scanInstruction h))
  · exact Nat.le_succ_of_le (Nat.le_of_lt (length_of_scanEnd h))
  · exact Nat.le_of_lt (length_of_scanTag h)

/-! ## The pieces of a document -/

/-- The pieces in the rest of a document, which starts at `position`. The pieces so far are in
`done`, the last one first. -/
def piecesFrom (options : Options) (position : Nat) (done : List (Nat × Piece))
    (input : List UInt8) : Reading (Nat × Piece) :=
  match input with
  | [] => ⟨done.reverse, none⟩
  | b :: rest =>
    if b = byteLess then
      match _found : scan options position rest with
      | .error fault => ⟨done.reverse, some fault⟩
      | .ok found => piecesFrom options found.next ((position, found.piece) :: done) found.rest
    else
      -- A lone `>` is text, so only the next `<` ends the run.
      let raw := b :: rest.takeWhile fun c => c ≠ byteLess
      piecesFrom options (position + raw.length) ((position, .text (trimText options raw)) :: done)
        (rest.dropWhile fun c => c ≠ byteLess)
termination_by input.length
decreasing_by
  · exact Nat.lt_succ_of_le (length_of_scan _found)
  · exact Nat.lt_succ_of_le (length_dropWhile_le _ rest)

/-- A document without the byte order mark that it may start with. -/
def dropByteOrderMark : List UInt8 → List UInt8
  | 0xef :: 0xbb :: 0xbf :: rest => rest
  | document => document

/-- The pieces of a document. A byte order mark is no part of it and no position counts it. -/
def pieces (options : Options) (document : List UInt8) : Reading (Nat × Piece) :=
  piecesFrom options 0 [] (dropByteOrderMark document)

end PetriQuery.Markup
