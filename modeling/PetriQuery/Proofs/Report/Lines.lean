import PetriQuery.Proofs.Grammar.Image
import PetriQuery.Proofs.Grammar.Parts
import PetriQuery.Proofs.Numeral.Fraction
import PetriQuery.Proofs.Session
import PetriQuery.Report
import Mathlib.Algebra.GroupWithZero.Nat

/-!
# The lines of a report

Reading a text report back line by line. No newline gets into the text of a query, as the names of
places hold no blanks (`newline_notMem_chars_of_propertyQuery`). An id is only freed of the blanks
at its ends, so it may hold newlines.

Main facts: the report of what a session holds has a line for each item and one more for each
newline in an id, and the index and the outcome of each item are read back iff there is none
(`Session.lines_of_held_items`).
-/

set_option autoImplicit false

namespace PetriQuery

namespace Query

/-! ## Newlines -/

/-- A text without blanks has no newline. -/
theorem newline_notMem_of_not_isBlank {cs : List Char} (h : ∀ c ∈ cs, Text.isBlank c = false) :
    '\n' ∉ cs := by
  intro member
  have blank : Text.isBlank '\n' = true := by rfl
  rw [h '\n' member] at blank
  cases blank

mutual

/-- The text of a well-formed expression has no newline. -/
theorem Expr.newline_notMem_chars : ∀ {x : Expr}, x.WellFormed → '\n' ∉ x.chars
  | .literal value, _ => by
    apply newline_notMem_of_not_isBlank
    intro c member
    exact Numeral.not_isBlank_of_isNumeral (Numeral.isNumeral_toString value.toInt).1 member
  | .place _, name => newline_notMem_of_not_isBlank name.2
  | .chain _ [], wellFormed => absurd wellFormed.1 (by decide)
  | .chain op (first :: rest), wellFormed => by
    have head := Expr.newline_notMem_chars wellFormed.2.1
    have tail := Expr.newline_notMem_operandChars op wellFormed.2.2
    simp [Expr.chars, head, tail]

/-- The text of well-formed operands has no newline. -/
theorem Expr.newline_notMem_operandChars (op : Operator) :
    ∀ {xs : List Expr}, Expr.AllWellFormed xs → '\n' ∉ Expr.operandChars op xs
  | [], _ => by simp [Expr.operandChars]
  | x :: xs, wellFormed => by
    have symbol : op.symbol ≠ '\n' := by cases op <;> decide
    have head := Expr.newline_notMem_chars wellFormed.1
    have tail := Expr.newline_notMem_operandChars op wellFormed.2
    simp [Expr.operandChars, symbol.symm, head, tail]

end

/-- The text of a plain condition has no newline. -/
theorem Condition.newline_notMem_chars_of_isPlain {c : Condition} (plain : c.IsPlain) :
    '\n' ∉ c.chars := by
  induction c with
  | truth value => cases value <;> decide +kernel
  | deadlock => decide +kernel
  | neg body ih =>
    change '\n' ∉ '!' :: '(' :: body.chars ++ [')']
    simp [ih plain]
  | conj left right ihLeft ihRight =>
    change '\n' ∉ '(' :: left.chars ++ " && ".toList ++ right.chars ++ [')']
    simp [ihLeft plain.1, ihRight plain.2]
  | disj left right ihLeft ihRight =>
    change '\n' ∉ '(' :: left.chars ++ " || ".toList ++ right.chars ++ [')']
    simp [ihLeft plain.1, ihRight plain.2]
  | compare relation left right =>
    have symbol : '\n' ∉ relation.symbol.toList := by cases relation <;> decide
    have first := Expr.newline_notMem_chars plain.1
    have second := Expr.newline_notMem_chars plain.2
    change '\n' ∉ '(' :: left.chars ++ ' ' :: relation.symbol.toList ++ ' ' :: right.chars ++ [')']
    simp [symbol, first, second]
  | path quantifier modality body ih =>
    have letter : quantifier.letter ≠ '\n' := by cases quantifier <;> decide
    have letter' : modality.letter ≠ '\n' := by cases modality <;> decide
    change '\n' ∉ quantifier.letter :: modality.letter :: ' ' :: body.chars
    simp [letter.symm, letter'.symm, ih plain]
  | holdUntil quantifier before goal ihBefore ihGoal =>
    have letter : quantifier.letter ≠ '\n' := by cases quantifier <;> decide
    change '\n' ∉ quantifier.letter :: '[' :: before.chars ++ " U ".toList ++ goal.chars ++ [']']
    simp [letter.symm, ihBefore plain.1, ihGoal plain.2]
  | kSafe bound => cases plain
  | control body _ => cases plain
  | probability goal settings body observables _ => cases plain

/-- The text of what a `formula` element denotes without settings has no newline. -/
theorem Condition.newline_notMem_chars_of_isQuery {c : Condition} (query : c.IsQuery) :
    '\n' ∉ c.chars := by
  rcases query with plain | ⟨bound, wellFormed, rfl⟩ | ⟨body, plain, rfl⟩
  · exact newline_notMem_chars_of_isPlain plain
  · have inner := Expr.newline_notMem_chars wellFormed
    change '\n' ∉ "k-safe(".toList ++ bound.chars ++ [')']
    simp [inner]
  · have inner := newline_notMem_chars_of_isPlain plain
    change '\n' ∉ "control(".toList ++ body.chars ++ [')']
    simp [inner]

end Query

open Grammar (HasItem Item Options exists_denotes_of_propertyQuery partsOf propertyQuery)
open Query (Condition)

/-- The text of the query of a property has no newline. -/
theorem newline_notMem_chars_of_propertyQuery {limit : Nat} {e body : Document.Element}
    {id : String} {query : Condition}
    (read : (propertyQuery limit (partsOf e) id body).result = .ok query) :
    '\n' ∉ query.chars := by
  rcases exists_denotes_of_propertyQuery read with
    ⟨-, k, -, denotes⟩ | ⟨-, goal, made, c, watched, -, ⟨k, -, denotes⟩, rfl, -⟩
  · exact Condition.newline_notMem_chars_of_isQuery denotes.isQuery
  · cases denotes with
    | mk goal denotes =>
      -- The text of a statistical query is that of its condition, behind two letters.
      have letter : goal.letter ≠ '\n' := by cases goal <;> decide
      have inner := Condition.newline_notMem_chars_of_isPlain denotes.isPlain
      change '\n' ∉ 'P' :: goal.letter :: ' ' :: c.chars
      simp [letter.symm, inner]

namespace Report

/-! ## Splitting a text into lines -/

/-- The lines of a text, each of which a newline ends, and what is behind the last newline. -/
def splitLines : List Char → List (List Char) × List Char
  | [] => ([], [])
  | c :: cs =>
    let (lines, rest) := splitLines cs
    if c = '\n' then ([] :: lines, rest)
    else
      match lines with
      | [] => ([], c :: rest)
      | first :: others => ((c :: first) :: others, rest)

/-- There are as many lines as newlines. -/
theorem length_splitLines (cs : List Char) : (splitLines cs).1.length = cs.count '\n' := by
  induction cs with
  | nil => rfl
  | cons c cs ih =>
    rw [splitLines, List.count_cons, ← ih]
    obtain ⟨lines, rest⟩ := splitLines cs
    by_cases newline : c = '\n'
    · simp [newline]
    · cases lines <;> simp [newline]

/-- A row without newlines is a line if a newline follows. -/
theorem splitLines_append {row : List Char} (single : '\n' ∉ row) (rest : List Char) :
    splitLines (row ++ '\n' :: rest) = (row :: (splitLines rest).1, (splitLines rest).2) := by
  induction row with
  | nil => rfl
  | cons c cs ih =>
    obtain ⟨other, single⟩ := List.ne_and_not_mem_of_not_mem_cons single
    rw [List.cons_append, splitLines, ih single]
    simp only [Ne.symm other, if_false]

/-- Rows without newlines are the lines of the text in which a newline follows each. -/
theorem splitLines_flatMap {rows : List (List Char)} (single : ∀ row ∈ rows, '\n' ∉ row) :
    splitLines (rows.flatMap fun row => row ++ ['\n']) = (rows, []) := by
  induction rows with
  | nil => rfl
  | cons row rows ih =>
    obtain ⟨head, tail⟩ := List.forall_mem_cons.1 single
    rw [List.flatMap_cons, List.append_assoc, List.singleton_append, splitLines_append head,
      ih tail]

/-- What is behind the last newline is found behind any newline. -/
theorem snd_splitLines_append (cs ds : List Char) :
    (splitLines (cs ++ '\n' :: ds)).2 = (splitLines ds).2 := by
  induction cs with
  | nil => rfl
  | cons c cs ih =>
    -- There is a line, so `c` does not get into what is behind the last newline.
    have positive : 0 < (splitLines (cs ++ '\n' :: ds)).1.length := by
      rw [length_splitLines, List.count_append, List.count_cons_self]
      omega
    rw [List.cons_append, splitLines, ← ih]
    cases h : splitLines (cs ++ '\n' :: ds) with
    | mk lines rest =>
      rw [h] at positive
      cases lines with
      | nil => exact absurd positive (Nat.lt_irrefl 0)
      | cons first others => by_cases newline : c = '\n' <;> simp [newline]

/-- A newline behind each row leaves nothing behind the last one. -/
theorem snd_splitLines_flatMap (rows : List (List Char)) :
    (splitLines (rows.flatMap fun row => row ++ ['\n'])).2 = [] := by
  induction rows with
  | nil => rfl
  | cons row rows ih =>
    rw [List.flatMap_cons, List.append_assoc, List.singleton_append, snd_splitLines_append, ih]

/-! ## Reading a line back -/

/-- The outcome that a word stands for. -/
def Outcome.ofWord? (word : String) : Option Outcome :=
  [Outcome.ok, Outcome.unsupported, Outcome.skipped].find? fun outcome => outcome.word = word

theorem Outcome.ofWord?_word (outcome : Outcome) : Outcome.ofWord? outcome.word = some outcome := by
  cases outcome <;> decide

/-- The index and the outcome at the front of a line, up to the second space. -/
def readRow? (row : List Char) : Option (Nat × Outcome) :=
  let index := row.span fun c => c ≠ ' '
  let word := index.2.tail.span fun c => c ≠ ' '
  if Numeral.IsDigits index.1 then
    (Outcome.ofWord? (String.ofList word.1)).map fun outcome =>
      (Nat.ofDigitChars 10 index.1 0, outcome)
  else none

/-- A line begins with its index, a space and its outcome, up to a second space. -/
theorem exists_line_eq (index : Nat) (item : Item) :
    ∃ behind, (∀ c ∈ behind.head?, c = ' ')
      ∧ line index item
        = Nat.toDigits 10 index ++ ' ' :: ((Outcome.ofItem item).word.toList ++ behind) := by
  obtain ⟨id, query?, verdict⟩ := item
  cases query? with
  | none =>
    refine ⟨if id = "" then [] else ' ' :: id.toList, ?_, ?_⟩
    · intro c first
      by_cases empty : id = ""
      · simp [empty] at first
      · simpa [empty, eq_comm] using first
    · simp [line]
  | some query =>
    refine ⟨(if id = "" then [] else ' ' :: id.toList) ++ ' ' :: query.chars, ?_, ?_⟩
    · intro c first
      by_cases empty : id = ""
      · simpa [empty, eq_comm] using first
      · simpa [empty, eq_comm] using first
    · simp [line]

/-- The index and the outcome of a line are read back. -/
theorem readRow?_line (index : Nat) (item : Item) :
    readRow? (line index item) = some (index, Outcome.ofItem item) := by
  obtain ⟨behind, stop, whole⟩ := exists_line_eq index item
  have digits := Numeral.isDigits_toDigits index
  have first : ∀ c ∈ Nat.toDigits 10 index, decide (c ≠ ' ') = true := by
    intro c member
    apply decide_eq_true
    rintro rfl
    exact absurd (digits.2 ' ' member) Bool.false_ne_true
  have absent : ' ' ∉ (Outcome.ofItem item).word.toList := by
    cases Outcome.ofItem item <;> decide
  have second : ∀ c ∈ (Outcome.ofItem item).word.toList, decide (c ≠ ' ') = true := by
    intro c member
    apply decide_eq_true
    rintro rfl
    exact absent member
  have stop' : ∀ c ∈ behind.head?, decide (c ≠ ' ') = false := by
    intro c member
    rw [stop c member]
    rfl
  have space : ∀ c ∈ (' ' :: ((Outcome.ofItem item).word.toList ++ behind)).head?,
      decide (c ≠ ' ') = false := by
    rintro c ⟨rfl⟩
    rfl
  have indexSplit := Numeral.span_append first space
  have wordSplit := Numeral.span_append second stop'
  simp only [readRow?, whole, indexSplit, List.tail_cons, wordSplit, digits, if_true,
    String.ofList_toList, Outcome.ofWord?_word, Option.map_some,
    Nat.ofDigitChars_toDigits (by decide) (Nat.le_refl 10)]

/-! ## The lines of a report -/

/-- The text report is made of lines. -/
theorem toList_report (items : List Item) :
    (report false items).toList
      = (items.zipIdx.map fun entry => line entry.2 entry.1).flatMap fun row => row ++ ['\n'] := by
  rw [report, if_neg Bool.false_ne_true, text, String.toList_ofList, List.flatMap_map]

/-- The newlines in a line are those in the id, if the query is written without one. -/
theorem count_newline_line (index : Nat) {item : Item}
    (single : ∀ query, item.query? = some query → '\n' ∉ query.chars) :
    (line index item).count '\n' = item.id.toList.count '\n' := by
  obtain ⟨id, query?, verdict⟩ := item
  have digits : (Nat.toDigits 10 index).count '\n' = 0 := by
    apply List.count_eq_zero.2
    apply Query.newline_notMem_of_not_isBlank
    intro c member
    exact Numeral.not_isBlank_of_isDigit ((Numeral.isDigits_toDigits index).2 c member)
  have word : (Outcome.ofItem ⟨id, query?, verdict⟩).word.toList.count '\n' = 0 := by
    cases Outcome.ofItem ⟨id, query?, verdict⟩ <;> decide
  have named : (if id = "" then [] else ' ' :: id.toList).count '\n' = id.toList.count '\n' := by
    by_cases empty : id = ""
    · simp [empty]
    · simp [empty]
  rw [line]
  cases query? with
  | none => simp [digits, word, named]
  | some query =>
    have formula : query.chars.count '\n' = 0 := List.count_eq_zero.2 (single query rfl)
    simp [digits, word, named, formula]

/-- The newlines behind lines and in their ids are all that the lines have. -/
theorem count_newline_lines {entries : List (Item × Nat)}
    (single : ∀ entry ∈ entries, ∀ query, entry.1.query? = some query → '\n' ∉ query.chars) :
    ((entries.map fun entry => line entry.2 entry.1).flatMap fun row => row ++ ['\n']).count '\n'
      = entries.length + (entries.map fun entry => entry.1.id.toList.count '\n').sum := by
  induction entries with
  | nil => rfl
  | cons entry entries ih =>
    obtain ⟨head, tail⟩ := List.forall_mem_cons.1 single
    have first := count_newline_line entry.2 head
    have others := ih tail
    simp only [List.map_cons, List.flatMap_cons, List.count_append, List.count_singleton_self,
      List.length_cons, List.sum_cons]
    omega

/-- What is read line by line from the text report of items. -/
structure HasLines (items : List Item) : Prop where
  /-- Every line is ended by a newline. -/
  rest : (splitLines (report false items).toList).2 = []
  /-- There is a line for each item, and one more for each newline in an id. -/
  length : (splitLines (report false items).toList).1.length
    = items.length + (items.map fun item => item.id.toList.count '\n').sum
  /-- The index and the outcome of each item are read back iff no id has a newline. -/
  entries : (splitLines (report false items).toList).1.map readRow?
      = items.zipIdx.map (fun entry => some (entry.2, Outcome.ofItem entry.1))
    ↔ ∀ item ∈ items, '\n' ∉ item.id.toList
  /-- If no id has a newline, then the lines are those of the items, in their order. -/
  lines : (∀ item ∈ items, '\n' ∉ item.id.toList) →
    (splitLines (report false items).toList).1
      = items.zipIdx.map fun entry => line entry.2 entry.1

/-- What stands in a numbered list stands in the list. -/
theorem forall_mem_zipIdx {P : Item → Prop} {items : List Item} (all : ∀ item ∈ items, P item) :
    ∀ entry ∈ items.zipIdx, P entry.1 :=
  fun _ member => all _ (List.fst_mem_of_mem_zipIdx member)

/-- The report of items has lines if the queries are written without newlines. -/
theorem hasLines_of_queries {items : List Item}
    (single : ∀ item ∈ items, ∀ query, item.query? = some query → '\n' ∉ query.chars) :
    HasLines items := by
  have length : (splitLines (report false items).toList).1.length
      = items.length + (items.map fun item => item.id.toList.count '\n').sum := by
    have count := count_newline_lines (forall_mem_zipIdx single)
    have ids : items.zipIdx.map (fun entry => entry.1.id.toList.count '\n')
        = items.map fun item => item.id.toList.count '\n' := by
      conv_rhs => rw [← List.zipIdx_map_fst 0 items, List.map_map]
      rfl
    rw [length_splitLines, toList_report, count, List.length_zipIdx, ids]
  have lines : (∀ item ∈ items, '\n' ∉ item.id.toList) →
      (splitLines (report false items).toList).1
        = items.zipIdx.map fun entry => line entry.2 entry.1 := by
    intro clean
    rw [toList_report, splitLines_flatMap]
    intro row member
    obtain ⟨entry, numbered, rfl⟩ := List.mem_map.1 member
    apply List.count_eq_zero.1
    rw [count_newline_line entry.2 (forall_mem_zipIdx single entry numbered)]
    exact List.count_eq_zero.2 (forall_mem_zipIdx clean entry numbered)
  refine ⟨?_, length, ⟨?_, ?_⟩, lines⟩
  · rw [toList_report]
    exact snd_splitLines_flatMap _
  · -- With a newline in an id there are more lines than items.
    intro same item member
    have equal := congrArg List.length same
    rw [List.length_map, List.length_map, List.length_zipIdx, length] at equal
    have none : (items.map fun item => item.id.toList.count '\n').sum = 0 := by omega
    apply List.count_eq_zero.1
    exact List.sum_eq_zero_iff_forall_eq_nat.1 none _ (List.mem_map_of_mem member)
  · intro clean
    rw [lines clean, List.map_map]
    apply List.map_congr_left
    intro entry _
    exact readRow?_line entry.2 entry.1

end Report

namespace Session

open Report

/-- **The lines of the report of a session.** Whatever a session has read, its text report is made
of lines. There is one for each held item and one more for each newline in an id, so the index and
the outcome of each item are read back line by line iff no held id has a newline. If so, the line of
an item is its index, its outcome, its id and its formula, as far as it has them. -/
theorem lines_of_held_items (options : Options) (calls : List Call) :
    HasLines ((start options).run calls).1.items := by
  apply hasLines_of_queries
  intro item held query has
  obtain ⟨call, -, root, -, index, child, -, hasItem⟩ := exists_hasItem_of_mem_run held
  obtain ⟨body, -, read⟩ := hasItem.exists_propertyQuery has
  exact newline_notMem_chars_of_propertyQuery read

/-- A set of one property. The id is written like the id and the formula of a record, and the
beginning of the next record. -/
def oneRecord : Document.Element :=
  .mk .propertySet "" .empty [sampleProperty "a true\n1 ok b" (.mk .alwaysTrue "" .empty [])]

/-- A set of two properties. -/
def twoRecords : Document.Element :=
  .mk .propertySet "" .empty
    [sampleProperty "a" (.mk .alwaysTrue "" .empty []),
      sampleProperty "b" (.mk .alwaysTrue "" .empty [])]

/-- A newline in an id makes a line of its own, which no reader can tell from a record: a session
that holds one item and one that holds two have the same text report. -/
theorem one_record_reads_as_two :
    ((start .default).run [.tree oneRecord]).1.items.length = 1
      ∧ ((start .default).run [.tree twoRecords]).1.items.length = 2
      ∧ (splitLines (report false ((start .default).run [.tree oneRecord]).1.items).toList).1.length
        = 2
      ∧ report false ((start .default).run [.tree oneRecord]).1.items
        = report false ((start .default).run [.tree twoRecords]).1.items := by
  have one : ((start .default).run [.tree oneRecord]).1.items
      = [⟨"a true\n1 ok b", some (.truth true), .ok⟩] := by rfl
  have two : ((start .default).run [.tree twoRecords]).1.items
      = [⟨"a", some (.truth true), .ok⟩, ⟨"b", some (.truth true), .ok⟩] := by rfl
  rw [one, two]
  refine ⟨rfl, rfl, ?_, ?_⟩
  · decide +kernel
  · decide +kernel

end Session

end PetriQuery
