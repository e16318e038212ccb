import PetriQuery.Markup.Event
import PetriQuery.Proofs.Markup.Tags
import Mathlib.Data.List.DropRight

/-!
# Scanning what is written

What a reader makes of the parts that a document is written of: start tags, end tags, comments and
runs of text. Each part is read with an arbitrary rest behind it, and says which events it gives and
which names are open afterwards (`Reads`), so that parts can be put together (`Reads.append`).
-/

set_option autoImplicit false

namespace PetriQuery.Markup

open Text (IsWord isLetter isWordChar)

/-! ## What is written -/

/-- A start tag. -/
def startChars (name : String) (entries : List (String × String)) : List Char :=
  '<' :: (tagChars name entries ++ ['>'])

/-- An end tag. -/
def endChars (name : String) : List Char := '<' :: '/' :: (name.toList ++ ['>'])

/-- A comment. -/
def commentChars (body : List Char) : List Char :=
  '<' :: '!' :: '-' :: '-' :: (body ++ ['-', '-', '>'])

/-! ## Cutting -/

/-- A construct without a `>` inside is cut at the one behind it, if it closes there. -/
theorem cutFrom_append {σ : Type} {step : σ → UInt8 → σ} {closes : σ → Bool} {done : List UInt8}
    {state : σ} {content rest : List UInt8} (inner : byteGreater ∉ content)
    (closed : closes (content.foldl step state) = true) :
    cutFrom step closes done state (content ++ byteGreater :: rest)
      = some (done.reverse ++ content, rest) := by
  induction content generalizing done state with
  | nil =>
    rw [List.nil_append, cutFrom, if_pos ⟨rfl, closed⟩, List.append_nil]
  | cons b content ih =>
    rw [List.mem_cons, not_or] at inner
    obtain ⟨other, inner⟩ := inner
    have goesOn : ¬(b = byteGreater ∧ closes state = true) := fun closing => other closing.1.symm
    rw [List.cons_append, cutFrom, if_neg goesOn, ih inner closed, List.reverse_cons,
      List.append_assoc, List.singleton_append]

/-- The content of a construct and what follows it. -/
theorem cut_append {σ : Type} {step : σ → UInt8 → σ} {closes : σ → Bool} {state : σ}
    {content rest : List UInt8} (inner : byteGreater ∉ content)
    (closed : closes (content.foldl step state) = true) :
    cut step closes state (content ++ byteGreater :: rest) = some (content, rest) :=
  cutFrom_append inner closed

/-! ## Start tags -/

/-- No value opens where no quotation mark stands. -/
theorem foldl_stepTag_none {bytes : List UInt8}
    (plain : ∀ b ∈ bytes, b ≠ byteQuote ∧ b ≠ byteApostrophe) :
    bytes.foldl stepTag none = none := by
  induction bytes with
  | nil => rfl
  | cons b bytes ih =>
    obtain ⟨head, tail⟩ := List.forall_mem_cons.1 plain
    have outside : stepTag none b = none := if_neg (not_or.2 head)
    rw [List.foldl_cons, outside, ih tail]

/-- A value stays open up to its quotation mark. -/
theorem foldl_stepTag_some {quote : UInt8} {bytes : List UInt8} (plain : quote ∉ bytes) :
    bytes.foldl stepTag (some quote) = some quote := by
  induction bytes with
  | nil => rfl
  | cons b bytes ih =>
    rw [List.mem_cons, not_or] at plain
    obtain ⟨other, plain⟩ := plain
    have inside : stepTag (some quote) b = some quote := if_neg fun same => other same.symm
    rw [List.foldl_cons, inside, ih plain]

/-- A name opens no value. -/
theorem foldl_stepTag_word {cs : List Char} (word : IsWord isLetter cs) :
    (bytesOf cs).foldl stepTag none = none := by
  apply foldl_stepTag_none
  intro b member
  have markup := notMem_of_isNameByte (isNameByte_of_isWord word b member)
  constructor <;> rintro rfl <;> exact markup (by decide)

/-- Behind an attribute no value is open. -/
theorem foldl_stepTag_attributeChars {entry : String × String}
    (word : IsWord isLetter entry.1.toList) :
    (bytesOf (attributeChars entry)).foldl stepTag none = none := by
  have plain : byteQuote ∉ bytesOf (escape entry.2.toList) :=
    notMem_bytesOf_escape (c := '"') (by decide) entry.2.toList
  have space : stepTag none 0x20 = none := rfl
  have sign : stepTag none byteEquals = none := rfl
  have opened : stepTag none byteQuote = some byteQuote := rfl
  rw [bytesOf_attributeChars, List.foldl_cons, space, List.foldl_append, foldl_stepTag_word word,
    List.foldl_cons, sign, List.foldl_cons, opened, List.foldl_append, foldl_stepTag_some plain]
  rfl

/-- Behind the last attribute no value is open, so that the tag ends at its `>`. -/
theorem foldl_stepTag_tagChars {name : String} {entries : List (String × String)}
    (word : IsWord isLetter name.toList) (attributes : AreAttributes entries) :
    (bytesOf (tagChars name entries)).foldl stepTag none = none := by
  rw [tagChars, bytesOf_append, List.foldl_append, foldl_stepTag_word word]
  have words := attributes.words
  clear attributes
  induction entries with
  | nil => rfl
  | cons entry entries ih =>
    obtain ⟨head, tail⟩ := List.forall_mem_cons.1 words
    rw [List.flatMap_cons, bytesOf_append, List.foldl_append, foldl_stepTag_attributeChars head,
      ih tail]

/-- No word has a `>`. -/
theorem notMem_word {cs : List Char} (word : IsWord isLetter cs) : '>' ∉ cs := by
  intro member
  have inWord := word.isWordChar (fun _ letter => Text.isWordChar_of_isLetter letter) _ member
  cases inWord

/-- No tag has a `>` inside: keys and names are words, and values are escaped. -/
theorem notMem_tagChars {name : String} {entries : List (String × String)}
    (word : IsWord isLetter name.toList) (attributes : AreAttributes entries) :
    byteGreater ∉ bytesOf (tagChars name entries) := by
  apply notMem_bytesOf (c := '>') (by decide)
  rw [tagChars, List.mem_append, not_or, List.mem_flatMap]
  refine ⟨notMem_word word, ?_⟩
  rintro ⟨entry, member, inside⟩
  have key := notMem_word (attributes.words entry member)
  have value := not_mem_escape (c := '>') (by decide) entry.2.toList
  simp [attributeChars, key, value] at inside

/-- A start tag ends in a letter of its name or in a quotation mark. -/
theorem getLast?_tagChars {name : String} {entries : List (String × String)}
    (word : IsWord isLetter name.toList) :
    (bytesOf (tagChars name entries)).getLast? ≠ some byteSlash := by
  intro last
  rcases List.eq_nil_or_concat entries with rfl | ⟨before, entry, rfl⟩
  · rw [tagChars, List.flatMap_nil, List.append_nil] at last
    have named := isNameByte_of_isWord word byteSlash (List.mem_of_getLast? last)
    cases named
  · have quoted : bytesOf (attributeChars entry)
        = (0x20 :: (bytesOf entry.1.toList
          ++ byteEquals :: byteQuote :: bytesOf (escape entry.2.toList))) ++ [byteQuote] := by
      rw [bytesOf_attributeChars, List.cons_append, List.append_assoc, List.cons_append,
        List.cons_append]
    rw [tagChars, List.concat_eq_append, List.flatMap_append, List.flatMap_singleton,
      ← List.append_assoc, bytesOf_append, quoted, ← List.append_assoc,
      List.getLast?_concat] at last
    cases last

/-- A start tag is scanned up to its `>`. -/
theorem scan_startTag {options : Options} {start : Nat} {name : String}
    {entries : List (String × String)} {rest : List UInt8} (word : IsWord isLetter name.toList)
    (attributes : AreAttributes entries) :
    ∃ next, scan options start (bytesOf (tagChars name entries) ++ byteGreater :: rest)
      = .ok ⟨.startTag (bytesOf (tagChars name entries)), next, rest⟩ := by
  have closed : Option.isNone ((bytesOf (tagChars name entries)).foldl stepTag none) = true := by
    rw [foldl_stepTag_tagChars word attributes]
    rfl
  have cutOff := @cut_append _ _ _ _ _ rest (notMem_tagChars word attributes) closed
  have notEmpty := @getLast?_tagChars name entries word
  obtain ⟨b, later, bytes, named, -⟩ := exists_bytesOf_eq_cons word
  have markup := notMem_of_isNameByte named
  have begins : bytesOf (tagChars name entries)
      = b :: (later ++ bytesOf (entries.flatMap attributeChars)) := by
    rw [tagChars, bytesOf_append, bytes, List.cons_append]
  -- The first byte is one of the name, so it tells no other kind of construct.
  have kind : ∀ bytes, scan options start (b :: bytes) = scanTag start (b :: bytes) := by
    intro bytes
    rw [scan]
    all_goals
      intro rest same
      obtain ⟨rfl, -⟩ := List.cons.inj same
      exact markup (by decide)
  rw [begins, List.cons_append, kind, ← List.cons_append, ← begins]
  simp only [scanTag, cutOff, if_neg notEmpty]
  exact ⟨_, rfl⟩

/-! ## End tags and comments -/

/-- Behind a name there are no spaces to drop. -/
theorem endName_word {options : Options} {cs : List Char} (word : IsWord isLetter cs) :
    endName options (bytesOf cs) = bytesOf cs := by
  have kept : (bytesOf cs).rdropWhile isSpace = bytesOf cs := by
    rw [List.rdropWhile_eq_self_iff]
    intro notEmpty
    rw [isSpace_of_isNameByte (isNameByte_of_isWord word _ (List.getLast_mem notEmpty))]
    exact Bool.false_ne_true
  rw [endName]
  split
  · exact kept
  · rfl

/-- An end tag is scanned up to its `>`. -/
theorem scan_endTag {options : Options} {start : Nat} {name : String} {rest : List UInt8}
    (word : IsWord isLetter name.toList) :
    ∃ next, scan options start (byteSlash :: (bytesOf name.toList ++ byteGreater :: rest))
      = .ok ⟨.endTag (bytesOf name.toList), next, rest⟩ := by
  have closed : Option.isNone ((bytesOf name.toList).foldl stepTag none) = true := by
    rw [foldl_stepTag_word word]
    rfl
  have inner : byteGreater ∉ bytesOf name.toList :=
    notMem_bytesOf (c := '>') (by decide) (notMem_word word)
  have kind : ∀ bytes, scan options start (byteSlash :: bytes) = scanEnd options start bytes :=
    fun _ => rfl
  simp only [kind, scanEnd, cut_append inner closed, endName_word word]
  exact ⟨_, rfl⟩

/-- A comment counts the bytes it has. -/
theorem fst_foldl_stepComment (bytes : List UInt8) (state : Nat × Nat) :
    (bytes.foldl stepComment state).1 = state.1 + bytes.length := by
  induction bytes generalizing state with
  | nil => rfl
  | cons b bytes ih =>
    rw [List.foldl_cons, ih, stepComment, List.length_cons]
    omega

/-- A comment is scanned up to the `>` behind its last two hyphens. -/
theorem scan_comment {start : Nat} {body : List Char} {rest : List UInt8} (plain : '>' ∉ body) :
    ∃ next, scan .default start (byteBang :: byteHyphen :: byteHyphen
        :: (bytesOf body ++ byteHyphen :: byteHyphen :: byteGreater :: rest))
      = .ok ⟨.comment, next, rest⟩ := by
  have content : byteHyphen :: byteHyphen
      :: (bytesOf body ++ byteHyphen :: byteHyphen :: byteGreater :: rest)
      = (byteHyphen :: byteHyphen :: (bytesOf body ++ [byteHyphen, byteHyphen]))
        ++ byteGreater :: rest := by
    simp only [List.cons_append, List.append_assoc, List.nil_append]
  have inner : byteGreater ∉ byteHyphen :: byteHyphen
      :: (bytesOf body ++ [byteHyphen, byteHyphen]) := by
    have body := notMem_bytesOf (c := '>') (by decide) plain
    simp only [List.mem_cons, List.mem_append, not_or, List.not_mem_nil, not_false_iff, and_true]
    exact ⟨by decide, by decide, body, by decide, by decide⟩
  have closed : (fun state : Nat × Nat => decide (2 ≤ state.2) && decide (4 ≤ state.1))
      ((byteHyphen :: byteHyphen :: (bytesOf body ++ [byteHyphen, byteHyphen])).foldl stepComment
        (0, 0)) = true := by
    -- The last two bytes alone count two hyphens, whatever the body ends in.
    have hyphens : ∀ state, 2 ≤ (stepComment (stepComment state byteHyphen) byteHyphen).2 :=
      fun _ => Nat.le_add_left 2 _
    rw [← List.cons_append, ← List.cons_append, List.foldl_append, Bool.and_eq_true,
      decide_eq_true_eq, decide_eq_true_eq, fst_foldl_stepComment, fst_foldl_stepComment]
    refine ⟨hyphens _, ?_⟩
    simp only [List.length_cons, List.length_nil]
    omega
  have kind : ∀ bytes, scan .default start (byteBang :: byteHyphen :: bytes)
      = scanComment .default start (byteHyphen :: bytes) := fun _ => rfl
  rw [kind, content, scanComment, cut_append inner closed]
  exact ⟨_, rfl⟩

/-! ## Parts of a document -/

/-- In front of the rest, the part is read as the events, and afterwards the names in `opened'` are
open in place of those in `opened`. This holds wherever the part stands and whatever has been read
before it. -/
def Reads (part rest : List UInt8) (opened opened' : List (List UInt8)) (events : List Event) :
    Prop :=
  ∀ position done, ∃ position' items,
    piecesFrom .default position done (part ++ rest)
      = piecesFrom .default position' (items.reverse ++ done) rest
    ∧ ∀ fault? before more,
      eventsFrom .default fault? opened before (items ++ more)
        = eventsFrom .default fault? opened' (events.reverse ++ before) more

namespace Reads

variable {part part' rest : List UInt8} {opened opened' opened'' : List (List UInt8)}
  {events events' : List Event}

/-- No part is read as no event. -/
theorem nil : Reads [] rest opened opened [] :=
  fun position _ => ⟨position, [], rfl, fun _ _ _ => rfl⟩

/-- A part that is one piece is read as the events of that piece. -/
theorem piece {p : Piece}
    (found : ∀ position done, ∃ position', piecesFrom .default position done (part ++ rest)
      = piecesFrom .default position' ((position, p) :: done) rest)
    (read : ∀ position, readPiece .default position opened p = .ok (events, opened')) :
    Reads part rest opened opened' events := by
  intro position done
  obtain ⟨position', pieces⟩ := found position done
  refine ⟨position', [(position, p)], pieces, ?_⟩
  intro fault? before more
  rw [List.singleton_append, eventsFrom, read]

/-- Parts one after the other are read as their events one after the other. -/
theorem append (h : Reads part (part' ++ rest) opened opened' events)
    (h' : Reads part' rest opened' opened'' events') :
    Reads (part ++ part') rest opened opened'' (events ++ events') := by
  intro position done
  obtain ⟨between, items, pieces, read⟩ := h position done
  obtain ⟨position', items', pieces', read'⟩ := h' between (items.reverse ++ done)
  refine ⟨position', items ++ items', ?_, ?_⟩
  · rw [List.append_assoc, pieces, pieces', List.reverse_append, List.append_assoc]
  · intro fault? before more
    rw [List.append_assoc, read, read', List.reverse_append, List.append_assoc]

end Reads

/-- What is scanned behind a `<` is a piece. -/
theorem piecesFrom_scan {position : Nat} {done : List (Nat × Piece)} {input : List UInt8}
    {found : Found} (scanned : scan .default position input = .ok found) :
    piecesFrom .default position done (byteLess :: input)
      = piecesFrom .default found.next ((position, found.piece) :: done) found.rest := by
  rw [piecesFrom, if_pos rfl]
  split
  · next fault refused =>
    rw [scanned] at refused
    cases refused
  · next found' scanned' =>
    rw [scanned] at scanned'
    obtain rfl := Except.ok.inj scanned'
    rfl

/-- A run of text reaches up to the next `<`. -/
theorem piecesFrom_text {position : Nat} {done : List (Nat × Piece)} {raw rest : List UInt8}
    (notEmpty : raw ≠ []) (plain : byteLess ∉ raw) (stop : ∀ b ∈ rest.head?, b = byteLess) :
    piecesFrom .default position done (raw ++ rest)
      = piecesFrom .default (position + raw.length) ((position, .text raw) :: done) rest := by
  cases raw with
  | nil => exact absurd rfl notEmpty
  | cons b raw =>
    rw [List.mem_cons, not_or] at plain
    have last : ∀ c ∈ rest.head?, decide (c ≠ byteLess) = false := by
      intro c first
      rw [stop c first]
      rfl
    obtain ⟨front, behind⟩ := split_append (ne_of_notMem plain.2) last
    have noMarkup : b ≠ byteLess := fun same => plain.1 same.symm
    rw [List.cons_append, piecesFrom, if_neg noMarkup, front, behind]
    rfl

/-- A start tag as bytes. -/
theorem bytesOf_startChars (name : String) (entries : List (String × String)) :
    bytesOf (startChars name entries)
      = byteLess :: (bytesOf (tagChars name entries) ++ [byteGreater]) := by
  rw [startChars, bytesOf_cons, bytesOf_append]
  rfl

/-- A start tag opens its name. -/
theorem reads_startChars {name : String} {entries : List (String × String)} {rest : List UInt8}
    {opened : List (List UInt8)} (word : IsWord isLetter name.toList)
    (attributes : AreAttributes entries) :
    Reads (bytesOf (startChars name entries)) rest opened (bytesOf name.toList :: opened)
      [.start name entries] := by
  apply Reads.piece (p := .startTag (bytesOf (tagChars name entries)))
  · intro position done
    obtain ⟨next, scanned⟩ := @scan_startTag .default position name entries rest word attributes
    refine ⟨next, ?_⟩
    rw [bytesOf_startChars, List.cons_append, List.append_assoc]
    exact piecesFrom_scan scanned
  · intro position
    obtain ⟨named, read⟩ := readTag_tagChars word attributes
    rw [readPiece, read, named]
    rfl

/-- An end tag as bytes. -/
theorem bytesOf_endChars (name : String) :
    bytesOf (endChars name)
      = byteLess :: byteSlash :: (bytesOf name.toList ++ [byteGreater]) := by
  rw [endChars, bytesOf_cons, bytesOf_cons, bytesOf_append]
  rfl

/-- An end tag closes the innermost name, if that is its own. -/
theorem reads_endChars {name : String} {rest : List UInt8} {opened : List (List UInt8)}
    (word : IsWord isLetter name.toList) :
    Reads (bytesOf (endChars name)) rest (bytesOf name.toList :: opened) opened
      [.close name] := by
  apply Reads.piece (p := .endTag (bytesOf name.toList))
  · intro position done
    obtain ⟨next, scanned⟩ := @scan_endTag .default position name rest word
    refine ⟨next, ?_⟩
    rw [bytesOf_endChars, List.cons_append, List.cons_append, List.append_assoc]
    exact piecesFrom_scan scanned
  · intro position
    have same : ¬(Options.default.checkEndNames
        && decide (bytesOf name.toList ≠ bytesOf name.toList)) = true := by
      simp
    rw [readPiece, readEnd, if_neg same, closeEvent, decode_bytesOf, String.ofList_toList]
    rfl

/-- A comment as bytes. -/
theorem bytesOf_commentChars (body : List Char) :
    bytesOf (commentChars body)
      = byteLess :: byteBang :: byteHyphen :: byteHyphen
        :: (bytesOf body ++ [byteHyphen, byteHyphen, byteGreater]) := by
  rw [commentChars, bytesOf_cons, bytesOf_cons, bytesOf_cons, bytesOf_cons, bytesOf_append]
  rfl

/-- A comment opens nothing and closes nothing. -/
theorem reads_commentChars {body : List Char} {rest : List UInt8} {opened : List (List UInt8)}
    (plain : '>' ∉ body) : Reads (bytesOf (commentChars body)) rest opened opened [.comment] := by
  apply Reads.piece (p := .comment)
  · intro position done
    obtain ⟨next, scanned⟩ := @scan_comment position body rest plain
    refine ⟨next, ?_⟩
    rw [bytesOf_commentChars]
    simp only [List.cons_append, List.append_assoc, List.nil_append]
    exact piecesFrom_scan scanned
  · intro position
    rfl

/-- A run of text that is not empty is read as the text that was escaped. -/
theorem reads_escape {cs : List Char} {rest : List UInt8} {opened : List (List UInt8)}
    (notEmpty : cs ≠ []) (stop : ∀ b ∈ rest.head?, b = byteLess) :
    Reads (bytesOf (escape cs)) rest opened opened [.text (String.ofList cs)] := by
  have plain : byteLess ∉ bytesOf (escape cs) := notMem_bytesOf_escape (c := '<') (by decide) cs
  have written : bytesOf (escape cs) ≠ [] := by
    intro nothing
    exact notEmpty (escape_eq_nil_iff.1 (bytesOf_inj (nothing : _ = bytesOf [])))
  apply Reads.piece (p := .text (bytesOf (escape cs)))
  · intro position done
    exact ⟨_, piecesFrom_text written plain stop⟩
  · intro position
    rw [readPiece, decode_bytesOf]
    simp only [unescape_escape]

/-- **A document that begins with a `<` is read as the events of its parts.** -/
theorem Reads.events {document : List UInt8} {opened : List (List UInt8)}
    {events : List Event} (h : Reads document [] [] opened events)
    (begins : document.head? = some byteLess) :
    Markup.events .default document = ⟨events, none⟩ := by
  obtain ⟨position, items, pieces, read⟩ := h 0 []
  -- A byte order mark begins with another byte than `<`, so none is dropped.
  have noMark : dropByteOrderMark document = document := by
    cases document with
    | nil => rfl
    | cons b rest =>
      obtain rfl := Option.some.inj begins
      rfl
  have found : Markup.pieces .default document = ⟨items, none⟩ := by
    rw [List.append_nil, List.append_nil] at pieces
    rw [Markup.pieces, noMark, pieces, piecesFrom, List.reverse_reverse]
  have decoded := read none [] []
  rw [List.append_nil, List.append_nil] at decoded
  simp only [Markup.events, found]
  rw [decoded, eventsFrom, List.reverse_reverse]

end PetriQuery.Markup
