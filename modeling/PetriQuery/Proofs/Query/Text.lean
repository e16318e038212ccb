import PetriQuery.Proofs.Grammar.Image
import PetriQuery.Proofs.Grammar.Parts
import PetriQuery.Proofs.Json
import PetriQuery.Proofs.Text.Word

/-!
# The text of conditions is unambiguous

Conditions with one text are equal but for what is not written: the settings and the observables of
statistical queries. Two things are asked of the conditions, that chains have two or more operands
and that names of places are words (`IsReadable`). A chain of one operand is written alike for every
operator, and a place `1` like the number. The queries that documents are translated to are readable
whenever their places are named by words (`isReadable_of_propertyQuery`).

A text is read from the left. What it opens with tells the operator, but for `(`, with which
conjunctions, disjunctions, comparisons and chains begin alike. There the operator behind the left
operand decides, once it is known that no condition before `&&` or `||` is read as an expression
before another operator (`Condition.chars_append_ne`).
-/

set_option autoImplicit false

namespace PetriQuery.Query

open Text (EndsWord IsWord isLetter isWordChar word_append_inj)

/-! ## Prefix codes -/

/-- Neither text begins with the other. -/
def Apart (u v : List Char) : Prop := ¬ u <+: v ∧ ¬ v <+: u

instance (u v : List Char) : Decidable (Apart u v) := inferInstanceAs (Decidable (_ ∧ _))

/-- Texts that begin differently differ. -/
theorem Apart.append_ne {u v : List Char} (apart : Apart u v) (r s : List Char) :
    u ++ r ≠ v ++ s := by
  intro same
  rcases List.prefix_or_prefix_of_prefix ⟨r, rfl⟩ ⟨s, same.symm⟩ with h | h
  · exact apart.1 h
  · exact apart.2 h

/-- Different values are written apart. -/
def IsPrefixCode {α : Type} (text : α → List Char) : Prop := ∀ a b, a ≠ b → Apart (text a) (text b)

/-- Under a prefix code the first value of a text is determined. -/
theorem IsPrefixCode.append_inj {α : Type} {text : α → List Char} (code : IsPrefixCode text)
    {a b : α} {r s : List Char} (same : text a ++ r = text b ++ s) : a = b ∧ r = s := by
  by_cases equal : a = b
  · subst equal
    exact ⟨rfl, List.append_cancel_left same⟩
  · exact absurd same ((code a b equal).append_ne r s)

/-! ## Marks -/

/-- What stands between two operands. -/
inductive Mark where
  | conj
  | disj
  | holdUntil
  | operator (op : Operator)
  | relation (sign : Relation)
deriving DecidableEq

namespace Mark

/-- The text of a mark, with the blanks around it. -/
def chars : Mark → List Char
  | .conj => " && ".toList
  | .disj => " || ".toList
  | .holdUntil => " U ".toList
  | .operator op => [' ', op.symbol, ' ']
  | .relation sign => ' ' :: sign.symbol.toList ++ [' ']

/-- Whether the operands of the mark are expressions, and no conditions. -/
def isOfExprs : Mark → Bool
  | .conj | .disj | .holdUntil => false
  | .operator _ | .relation _ => true

/-- All marks. -/
def all : List Mark :=
  [.conj, .disj, .holdUntil] ++ [Operator.sum, .product, .difference].map .operator
    ++ [Relation.equal, .notEqual, .less, .lessEqual].map .relation

theorem mem_all (mark : Mark) : mark ∈ all := by
  cases mark with
  | operator op => cases op <;> decide
  | relation sign => cases sign <;> decide
  | _ => decide

theorem isPrefixCode : IsPrefixCode chars := by
  have apart : ∀ f ∈ all, ∀ g ∈ all, f ≠ g → Apart f.chars g.chars := by decide +kernel
  exact fun f g => apart f f.mem_all g g.mem_all

/-- Marks begin with a blank. -/
theorem exists_blank (mark : Mark) : ∃ rest, mark.chars = ' ' :: rest := by
  cases mark with
  | operator op => exact ⟨_, rfl⟩
  | relation sign => exact ⟨_, rfl⟩
  | conj => exact ⟨"&& ".toList, by decide +kernel⟩
  | disj => exact ⟨"|| ".toList, by decide +kernel⟩
  | holdUntil => exact ⟨"U ".toList, by decide +kernel⟩

/-- No word goes on with a mark. -/
theorem endsWord (mark : Mark) (rest : List Char) : EndsWord (mark.chars ++ rest) := by
  obtain ⟨tail, begins⟩ := mark.exists_blank
  rw [begins]
  exact Text.endsWord_cons (by decide) _

end Mark

/-! ## Expressions -/

/-- The name is a word and begins with a letter or `_`. -/
def IsPlaceName (name : String) : Prop := IsWord (fun c => isLetter c || c == '_') name.toList

instance (name : String) : Decidable (IsPlaceName name) := inferInstanceAs (Decidable (IsWord _ _))

namespace Expr

mutual

/-- All names of places are words and all chains have two or more operands. -/
def IsReadable : Expr → Prop
  | .literal _ => True
  | .place name => IsPlaceName name
  | .chain _ operands => 2 ≤ operands.length ∧ AllReadable operands

/-- Each expression of a list is readable. -/
def AllReadable : List Expr → Prop
  | [] => True
  | operand :: rest => operand.IsReadable ∧ AllReadable rest

end

/-- The expression is a constant or the count of a place. -/
def IsAtom : Expr → Prop
  | .literal _ | .place _ => True
  | .chain _ _ => False

/-- An expression is an atom or a chain of two or more operands. -/
theorem IsReadable.cases {x : Expr} (readable : x.IsReadable) :
    x.IsAtom ∨ ∃ op first second rest, x = .chain op (first :: second :: rest) := by
  cases x with
  | literal _ | place _ => exact .inl trivial
  | chain op operands =>
    match operands, readable.1 with
    | first :: second :: rest, _ => exact .inr ⟨op, first, second, rest, rfl⟩

/-- The name of a place is written with characters of words. -/
theorem isWordChar_of_isPlaceName {name : String} (h : IsPlaceName name) :
    ∀ c ∈ name.toList, isWordChar c = true := by
  apply IsWord.isWordChar h
  intro c first
  rcases Bool.or_eq_true_iff.1 first with letter | underscore
  · exact Text.isWordChar_of_isLetter letter
  · rw [eq_of_beq underscore]
    decide

/-- The text of an atom is a word. -/
theorem IsAtom.isWordChar {x : Expr} (atom : x.IsAtom) (readable : x.IsReadable) :
    ∀ c ∈ x.chars, isWordChar c = true := by
  cases x with
  | literal value =>
    intro c member
    rcases Numeral.isDigit_or_minus_of_mem_toString member with digit | rfl
    · exact Text.isWordChar_of_isDigit digit
    · decide
  | place name => exact isWordChar_of_isPlaceName readable
  | chain _ _ => exact atom.elim

/-- The text of an atom is not empty. -/
theorem IsAtom.chars_ne_nil {x : Expr} (atom : x.IsAtom) (readable : x.IsReadable) :
    x.chars ≠ [] := by
  cases x with
  | literal value => exact (Numeral.isNumeral_toString value.toInt).1.ne_nil
  | place name => exact IsWord.ne_nil readable
  | chain _ _ => exact atom.elim

/-- No constant is written like a place. -/
theorem toString_ne_of_isPlaceName (value : Int) {name : String} (h : IsPlaceName name) :
    (toString value).toList ≠ name.toList := by
  intro same
  have written : ∀ c ∈ name.toList, c.isDigit = true ∨ c = '-' := by
    rw [← same]
    exact fun _ => Numeral.isDigit_or_minus_of_mem_toString
  rw [IsPlaceName] at h
  cases letters : name.toList with
  | nil => exact IsWord.ne_nil h letters
  | cons c rest =>
    rw [letters] at h written
    rcases written c List.mem_cons_self with digit | rfl
    · rcases Bool.or_eq_true_iff.1 h.1 with letter | underscore
      · rw [Text.not_isLetter_of_isDigit digit] at letter
        cases letter
      · rw [eq_of_beq underscore] at digit
        exact absurd digit (by decide)
    · exact absurd h.1 (by decide)

/-- Atoms with one text are equal. -/
theorem IsAtom.eq_of_chars {x y : Expr} (atom : x.IsAtom) (atom' : y.IsAtom)
    (readable : x.IsReadable) (readable' : y.IsReadable) (same : x.chars = y.chars) : x = y := by
  match x, y with
  | .literal m, .literal n => rw [Int32.toInt_inj.1 (Json.int_inj same)]
  | .place p, .place q => rw [String.toList_inj.1 same]
  | .literal m, .place p => exact absurd same (toString_ne_of_isPlaceName m.toInt readable')
  | .place p, .literal n => exact absurd same.symm (toString_ne_of_isPlaceName n.toInt readable)

/-- No text begins with an atom and with a parenthesis. -/
theorem IsAtom.append_ne {x : Expr} (atom : x.IsAtom) (readable : x.IsReadable)
    (r s : List Char) : x.chars ++ r ≠ '(' :: s := by
  intro same
  cases written : x.chars with
  | nil => exact atom.chars_ne_nil readable written
  | cons c rest =>
    rw [written] at same
    have letter := atom.isWordChar readable c (written ▸ List.mem_cons_self)
    rw [(List.cons.inj same).1] at letter
    exact absurd letter (by decide)

/-- An atom is determined by a text that begins with it, if no word goes on behind it. -/
theorem IsAtom.append_inj {x y : Expr} {r s : List Char} (atom : x.IsAtom)
    (readable : x.IsReadable) (readable' : y.IsReadable) (stop : EndsWord r) (stop' : EndsWord s)
    (same : x.chars ++ r = y.chars ++ s) : x = y ∧ r = s := by
  rcases readable'.cases with atom' | ⟨op, first, second, rest, rfl⟩
  · obtain ⟨words, rest⟩ := word_append_inj (atom.isWordChar readable)
      (atom'.isWordChar readable') stop stop' same
    exact ⟨atom.eq_of_chars atom' readable readable' words, rest⟩
  · exact absurd same (atom.append_ne readable r _)

/-- No word goes on behind an operand: a blank or the closing parenthesis follows. -/
theorem endsWord_operandChars (op : Operator) (xs : List Expr) (r : List Char) :
    EndsWord (operandChars op xs ++ r) := by
  cases xs with
  | nil => exact Text.endsWord_cons (by decide) _
  | cons x xs => exact Text.endsWord_cons (by decide) _

mutual

/-- An expression is determined by a text that begins with it, if no word goes on behind it. -/
theorem chars_append_inj : ∀ (x : Expr) {y : Expr} {r s : List Char}, x.IsReadable →
    y.IsReadable → EndsWord r → EndsWord s → x.chars ++ r = y.chars ++ s → x = y ∧ r = s
  | .chain op (first :: others), y, r, s, readable, readable', _, _, same => by
    rcases readable'.cases with atom' | ⟨op', first', second', rest', rfl⟩
    · exact absurd same.symm (atom'.append_ne readable' s _)
    · have inner : first.chars ++ (operandChars op others ++ r)
          = first'.chars ++ (operandChars op' (second' :: rest') ++ s) := by
        simpa [chars] using same
      obtain ⟨two, readableFirst, readableOthers⟩ := readable
      obtain ⟨-, readableFirst', readableOthers'⟩ := readable'
      obtain ⟨rfl, behind⟩ := chars_append_inj first readableFirst readableFirst'
        (endsWord_operandChars op others r) (endsWord_operandChars op' _ s) inner
      obtain ⟨rfl, rest, ops⟩ := operandChars_append_inj others readableOthers readableOthers'
        behind
      rw [ops (List.cons_ne_nil _ _)]
      exact ⟨rfl, rest⟩
  | .chain _ [], _, _, _, readable, _, _, _, _ => absurd readable.1 (by decide)
  | .literal _, _, _, _, readable, readable', stop, stop', same
  | .place _, _, _, _, readable, readable', stop, stop', same =>
    IsAtom.append_inj trivial readable readable' stop stop' same

/-- Operands are determined by a text that begins with them and their closing parenthesis, and so is
the operator, if there are any. -/
theorem operandChars_append_inj : ∀ (xs : List Expr) {ys : List Expr} {op op' : Operator}
    {r s : List Char}, AllReadable xs → AllReadable ys →
    operandChars op xs ++ r = operandChars op' ys ++ s → xs = ys ∧ r = s ∧ (xs ≠ [] → op = op')
  | [], [], _, _, _, _, _, _, same => ⟨rfl, (List.cons.inj same).2, fun some => absurd rfl some⟩
  | [], _ :: _, _, _, _, _, _, _, same => by
    exact absurd (List.cons.inj same).1 (by decide)
  | _ :: _, [], _, _, _, _, _, _, same => by
    exact absurd (List.cons.inj same).1 (by decide)
  | x :: xs, y :: ys, op, op', r, s, ⟨readable, readables⟩, ⟨readable', readables'⟩, same => by
    have behind : (Mark.operator op).chars ++ (x.chars ++ (operandChars op xs ++ r))
        = (Mark.operator op').chars ++ (y.chars ++ (operandChars op' ys ++ s)) := by
      simpa [operandChars, Mark.chars] using same
    obtain ⟨marks, inner⟩ := Mark.isPrefixCode.append_inj behind
    obtain rfl := Mark.operator.inj marks
    obtain ⟨rfl, rest⟩ := chars_append_inj x readable readable'
      (endsWord_operandChars op xs r) (endsWord_operandChars op ys s) inner
    obtain ⟨rfl, rest, -⟩ := operandChars_append_inj xs readables readables' rest
    exact ⟨rfl, rest, fun _ => rfl⟩

end

end Expr

/-! ## Openings -/

/-- The outermost operator of a condition as far as the beginning of its text tells it. -/
inductive Opening where
  | truth (value : Bool)
  | deadlock
  | neg
  /-- Of a conjunction, a disjunction or a comparison. -/
  | group
  | path (quantifier : PathQuantifier) (modality : Modality)
  | holdUntil (quantifier : PathQuantifier)
  | kSafe
  | control
  | probability (goal : RunGoal)
deriving DecidableEq

namespace Opening

/-- What a text begins with. -/
def chars : Opening → List Char
  | .truth value => (toString value).toList
  | .deadlock => "deadlock".toList
  | .neg => ['!', '(']
  | .group => ['(']
  | .path quantifier modality => [quantifier.letter, modality.letter, ' ']
  | .holdUntil quantifier => [quantifier.letter, '[']
  | .kSafe => "k-safe(".toList
  | .control => "control(".toList
  | .probability goal => ['P', goal.letter, ' ']

/-- All openings. -/
def all : List Opening :=
  [.truth true, .truth false, .deadlock, .neg, .group, .kSafe, .control]
    ++ [PathQuantifier.somePath, .everyPath].flatMap (fun quantifier =>
      .holdUntil quantifier :: [Modality.next, .always, .eventually].map (.path quantifier))
    ++ [RunGoal.eventually, .always].map .probability

theorem mem_all (opening : Opening) : opening ∈ all := by
  cases opening with
  | truth value => cases value <;> decide
  | path quantifier modality => cases quantifier <;> cases modality <;> decide
  | holdUntil quantifier => cases quantifier <;> decide
  | probability goal => cases goal <;> decide
  | _ => decide

theorem isPrefixCode : IsPrefixCode chars := by
  have apart : ∀ f ∈ all, ∀ g ∈ all, f ≠ g → Apart f.chars g.chars := by decide +kernel
  exact fun f g => apart f f.mem_all g g.mem_all

end Opening

namespace Condition

/-- What the text of the condition begins with. -/
def opening : Condition → Opening
  | .truth value => .truth value
  | .deadlock => .deadlock
  | .neg _ => .neg
  | .conj _ _ | .disj _ _ | .compare _ _ _ => .group
  | .path quantifier modality _ => .path quantifier modality
  | .holdUntil quantifier _ _ => .holdUntil quantifier
  | .kSafe _ => .kSafe
  | .control _ => .control
  | .probability goal _ _ _ => .probability goal

/-- What stands behind the beginning. -/
def body : Condition → List Char
  | .truth _ | .deadlock => []
  | .neg inner | .control inner => inner.chars ++ [')']
  | .conj left right => left.chars ++ (Mark.conj.chars ++ (right.chars ++ [')']))
  | .disj left right => left.chars ++ (Mark.disj.chars ++ (right.chars ++ [')']))
  | .compare relation left right =>
    left.chars ++ ((Mark.relation relation).chars ++ (right.chars ++ [')']))
  | .path _ _ inner | .probability _ _ inner _ => inner.chars
  | .holdUntil _ before goal => before.chars ++ (Mark.holdUntil.chars ++ (goal.chars ++ [']']))
  | .kSafe bound => bound.chars ++ [')']

theorem chars_eq (c : Condition) : c.chars = c.opening.chars ++ c.body := by
  have binary : ∀ front left mark right close : List Char,
      front ++ left ++ mark ++ right ++ close
        = front ++ (left ++ (mark ++ (right ++ close))) := by
    intros
    simp only [List.append_assoc]
  cases c with
  | truth _ | deadlock => exact (List.append_nil _).symm
  | neg _ | path _ _ _ | probability _ _ _ _ => rfl
  | control _ | kSafe _ => exact List.append_assoc _ _ _
  | conj left right => exact binary ['('] left.chars Mark.conj.chars right.chars [')']
  | disj left right => exact binary ['('] left.chars Mark.disj.chars right.chars [')']
  | compare sign left right =>
    change ['('] ++ left.chars ++ (' ' :: sign.symbol.toList) ++ ([' '] ++ right.chars) ++ [')']
      = ['('] ++ (left.chars ++ (((' ' :: sign.symbol.toList) ++ [' ']) ++ (right.chars ++ [')'])))
    simp only [List.append_assoc]
  | holdUntil quantifier before goal =>
    exact binary [quantifier.letter, '['] before.chars Mark.holdUntil.chars goal.chars [']']

/-- Conditions with which one text begins open alike. -/
theorem opening_eq {c d : Condition} {r s : List Char} (same : c.chars ++ r = d.chars ++ s) :
    c.opening = d.opening ∧ c.body ++ r = d.body ++ s := by
  rw [c.chars_eq, d.chars_eq, List.append_assoc, List.append_assoc] at same
  exact Opening.isPrefixCode.append_inj same

/-- All names of places are words and all chains have two or more operands, but for the
observables, which are not written. -/
def IsReadable : Condition → Prop
  | .truth _ | .deadlock => True
  | .neg inner | .path _ _ inner | .control inner | .probability _ _ inner _ => inner.IsReadable
  | .conj left right | .disj left right | .holdUntil _ left right =>
    left.IsReadable ∧ right.IsReadable
  | .compare _ left right => left.IsReadable ∧ right.IsReadable
  | .kSafe bound => bound.IsReadable

/-- The condition with no settings and no observables in it. -/
def bare : Condition → Condition
  | .truth value => .truth value
  | .deadlock => .deadlock
  | .neg inner => .neg inner.bare
  | .conj left right => .conj left.bare right.bare
  | .disj left right => .disj left.bare right.bare
  | .compare relation left right => .compare relation left right
  | .path quantifier modality inner => .path quantifier modality inner.bare
  | .holdUntil quantifier before goal => .holdUntil quantifier before.bare goal.bare
  | .kSafe bound => .kSafe bound
  | .control inner => .control inner.bare
  | .probability goal _ inner _ => .probability goal .default inner.bare []

/-! ## Conditions and expressions -/

section Atoms

variable {x : Expr} {m n : Mark} {w r s : List Char}

/-- Where an atom stands before a mark, it is the longest word at the front. -/
theorem eq_of_append_eq_atom (atom : x.IsAtom) (readable : x.IsReadable)
    (word : ∀ c ∈ w, isWordChar c = true) (stop : EndsWord r)
    (same : w ++ r = x.chars ++ (n.chars ++ s)) : r = n.chars ++ s :=
  (word_append_inj word (atom.isWordChar readable) stop (n.endsWord s) same).2

/-- No word before a mark of conditions is an atom before a mark of expressions. -/
theorem word_append_mark_ne (atom : x.IsAtom) (readable : x.IsReadable)
    (ofConditions : m.isOfExprs = false) (ofExprs : n.isOfExprs = true)
    (word : ∀ c ∈ w, isWordChar c = true) : w ++ (m.chars ++ r) ≠ x.chars ++ (n.chars ++ s) := by
  intro same
  have behind := eq_of_append_eq_atom atom readable word (m.endsWord r) same
  obtain rfl := (Mark.isPrefixCode.append_inj behind).1
  rw [ofConditions] at ofExprs
  cases ofExprs

/-- No word before a blank and a condition is an atom before a mark of expressions. -/
theorem word_append_condition_ne (atom : x.IsAtom) (readable : x.IsReadable)
    (ofExprs : n.isOfExprs = true) (word : ∀ c ∈ w, isWordChar c = true) (d : Condition) :
    w ++ ' ' :: (d.chars ++ r) ≠ x.chars ++ (n.chars ++ s) := by
  intro same
  have apart : ∀ f ∈ Opening.all, ∀ g ∈ Mark.all, g.isOfExprs = true →
      Apart (' ' :: f.chars) g.chars := by decide +kernel
  have behind := eq_of_append_eq_atom atom readable word (Text.endsWord_cons (by decide) _) same
  rw [d.chars_eq, List.append_assoc, ← List.cons_append] at behind
  exact (apart _ d.opening.mem_all n n.mem_all ofExprs).append_ne _ s behind

/-- No word before another character than a blank is an atom before a mark. -/
theorem word_append_cons_ne (atom : x.IsAtom) (readable : x.IsReadable)
    (word : ∀ c ∈ w, isWordChar c = true) {k : Char} (other : isWordChar k = false)
    (notBlank : k ≠ ' ') : w ++ k :: r ≠ x.chars ++ (n.chars ++ s) := by
  intro same
  have behind := eq_of_append_eq_atom atom readable word (Text.endsWord_cons other r) same
  obtain ⟨rest, begins⟩ := n.exists_blank
  rw [begins] at behind
  exact notBlank (List.cons.inj behind).1

/-- No condition before a mark of conditions is an atom before a mark of expressions. -/
theorem chars_append_ne_atom (c : Condition) (atom : x.IsAtom) (readable : x.IsReadable)
    (ofConditions : m.isOfExprs = false) (ofExprs : n.isOfExprs = true) :
    c.chars ++ (m.chars ++ r) ≠ x.chars ++ (n.chars ++ s) := by
  -- By what follows the longest word at the front of the condition, which may be empty.
  cases c with
  | truth value =>
    have word : ∀ c ∈ (toString value).toList, isWordChar c = true := by
      refine List.all_eq_true.1 ?_
      cases value <;> decide +kernel
    exact word_append_mark_ne atom readable ofConditions ofExprs word
  | deadlock =>
    have word : ∀ c ∈ "deadlock".toList, isWordChar c = true :=
      List.all_eq_true.1 (by decide +kernel)
    exact word_append_mark_ne atom readable ofConditions ofExprs word
  | path quantifier modality inner =>
    have word : ∀ c ∈ [quantifier.letter, modality.letter], isWordChar c = true := by
      refine List.all_eq_true.1 ?_
      cases quantifier <;> cases modality <;> decide
    exact word_append_condition_ne atom readable ofExprs word inner
  | probability goal settings inner observables =>
    have word : ∀ c ∈ ['P', goal.letter], isWordChar c = true := by
      refine List.all_eq_true.1 ?_
      cases goal <;> decide
    exact word_append_condition_ne atom readable ofExprs word inner
  | neg inner =>
    exact word_append_cons_ne (w := []) (k := '!') atom readable (List.forall_mem_nil _) (by decide)
      (by decide)
  | conj left right | disj left right | compare sign left right =>
    exact word_append_cons_ne (w := []) (k := '(') atom readable (List.forall_mem_nil _) (by decide)
      (by decide)
  | holdUntil quantifier before goal =>
    have word : ∀ c ∈ [quantifier.letter], isWordChar c = true := by
      refine List.all_eq_true.1 ?_
      cases quantifier <;> decide
    exact word_append_cons_ne (k := '[') atom readable word (by decide) (by decide)
  | kSafe bound =>
    have word : ∀ c ∈ "k-safe".toList, isWordChar c = true :=
      List.all_eq_true.1 (by decide +kernel)
    exact word_append_cons_ne (k := '(') atom readable word (by decide) (by decide)
  | control inner =>
    have word : ∀ c ∈ "control".toList, isWordChar c = true :=
      List.all_eq_true.1 (by decide +kernel)
    exact word_append_cons_ne (k := '(') atom readable word (by decide) (by decide)

end Atoms

/-- A condition that is written like a chain opens with its parenthesis, and the first operand
follows. -/
theorem opening_eq_group {c : Condition} {op : Operator} {first second : Expr} {rest : List Expr}
    {r s : List Char}
    (same : c.chars ++ r = (Expr.chain op (first :: second :: rest)).chars ++ s) :
    c.opening = .group ∧ ∃ t, c.body ++ r = first.chars ++ ((Mark.operator op).chars ++ t) := by
  have chain : (Expr.chain op (first :: second :: rest)).chars ++ s = Opening.group.chars
      ++ (first.chars ++ ((Mark.operator op).chars
        ++ (second.chars ++ (Expr.operandChars op rest ++ s)))) := by
    change ['('] ++ first.chars ++ ((Mark.operator op).chars ++ second.chars
      ++ Expr.operandChars op rest) ++ s = ['('] ++ _
    simp only [List.append_assoc]
  rw [chain, c.chars_eq, List.append_assoc] at same
  obtain ⟨openings, behind⟩ := Opening.isPrefixCode.append_inj same
  exact ⟨openings, _, behind⟩

/-- No condition before a mark of conditions is an expression before a mark of expressions. -/
theorem chars_append_ne {c : Condition} {x : Expr} (readable : c.IsReadable)
    (readable' : x.IsReadable) {m n : Mark} (ofConditions : m.isOfExprs = false)
    (ofExprs : n.isOfExprs = true) (r s : List Char) :
    c.chars ++ (m.chars ++ r) ≠ x.chars ++ (n.chars ++ s) := by
  induction c generalizing x m n r s with
  | conj left right ih _ | disj left right ih _ =>
    -- The left operand of the condition would be the first operand of the chain.
    rcases readable'.cases with atom | ⟨op, first, second, rest, rfl⟩
    · exact chars_append_ne_atom _ atom readable' ofConditions ofExprs
    · intro same
      obtain ⟨-, t, behind⟩ := opening_eq_group same
      simp only [body, List.append_assoc] at behind
      exact ih readable.1 readable'.2.1 rfl rfl _ t behind
  | compare sign left right =>
    rcases readable'.cases with atom | ⟨op, first, second, rest, rfl⟩
    · exact chars_append_ne_atom _ atom readable' ofConditions ofExprs
    · intro same
      obtain ⟨-, t, behind⟩ := opening_eq_group same
      simp only [body, List.append_assoc] at behind
      obtain ⟨-, behind⟩ := left.chars_append_inj readable.1 readable'.2.1
        (Mark.endsWord _ _) (Mark.endsWord _ _) behind
      cases (Mark.isPrefixCode.append_inj behind).1
  | _ =>
    rcases readable'.cases with atom | ⟨op, first, second, rest, rfl⟩
    · exact chars_append_ne_atom _ atom readable' ofConditions ofExprs
    · intro same
      cases (opening_eq_group same).1

/-! ## What a text determines -/

theorem endsWord_close (rest : List Char) : EndsWord ([')'] ++ rest) :=
  Text.endsWord_cons (by decide) rest

/-- The condition is determined by every text that begins with it, but for the settings and the
observables in it. -/
def IsDetermined (c : Condition) : Prop :=
  ∀ (d : Condition) (r s : List Char), d.IsReadable → c.chars ++ r = d.chars ++ s →
    c.bare = d.bare ∧ r = s

/-- It is enough to look behind the opening, at conditions that open alike. -/
theorem isDetermined_of_body {c : Condition} (determined : ∀ (d : Condition) (r s : List Char),
    d.IsReadable → c.opening = d.opening → c.body ++ r = d.body ++ s → c.bare = d.bare ∧ r = s) :
    c.IsDetermined := by
  intro d r s readable same
  obtain ⟨openings, bodies⟩ := opening_eq same
  exact determined d r s readable openings bodies

/-- Two conditions are determined by a text that begins with both, a mark between them and a
character behind them, and so is the mark. -/
theorem IsDetermined.binary {left right left' right' : Condition} {m n : Mark} {k : Char}
    {r s : List Char} (first : left.IsDetermined) (second : right.IsDetermined)
    (readable : left'.IsReadable) (readable' : right'.IsReadable)
    (same : left.chars ++ (m.chars ++ (right.chars ++ [k])) ++ r
      = left'.chars ++ (n.chars ++ (right'.chars ++ [k])) ++ s) :
    m = n ∧ left.bare = left'.bare ∧ right.bare = right'.bare ∧ r = s := by
  simp only [List.append_assoc] at same
  obtain ⟨lefts, behind⟩ := first left' _ _ readable same
  obtain ⟨marks, behind⟩ := Mark.isPrefixCode.append_inj behind
  obtain ⟨rights, behind⟩ := second right' _ _ readable' behind
  exact ⟨marks, lefts, rights, (List.cons.inj behind).2⟩

/-- A condition is determined by a text that begins with it and a closing parenthesis. -/
theorem IsDetermined.closed {inner : Condition} (determined : inner.IsDetermined)
    (inner' : Condition) {r s : List Char} (readable : inner'.IsReadable)
    (same : inner.chars ++ [')'] ++ r = inner'.chars ++ [')'] ++ s) :
    inner.bare = inner'.bare ∧ r = s := by
  simp only [List.append_assoc] at same
  obtain ⟨inners, behind⟩ := determined inner' _ _ readable same
  exact ⟨inners, (List.cons.inj behind).2⟩

/-- Readable conditions are determined by their texts. The induction is on the condition; of the
conditions that open like it, only those before which a `(` stands have to be told apart. -/
theorem IsReadable.isDetermined {c : Condition} (readable : c.IsReadable) : c.IsDetermined := by
  induction c with
  | truth value =>
    refine isDetermined_of_body fun d r s readable' openings bodies => ?_
    cases d with
    | truth value' =>
      obtain rfl := Opening.truth.inj openings
      exact ⟨rfl, bodies⟩
    | _ => cases openings
  | deadlock =>
    refine isDetermined_of_body fun d r s readable' openings bodies => ?_
    cases d with
    | deadlock => exact ⟨rfl, bodies⟩
    | _ => cases openings
  | neg inner ih =>
    refine isDetermined_of_body fun d r s readable' openings bodies => ?_
    cases d with
    | neg inner' =>
      obtain ⟨inners, behind⟩ := (ih readable).closed inner' readable' bodies
      exact ⟨by rw [bare, bare, inners], behind⟩
    | _ => cases openings
  | conj left right ihLeft ihRight =>
    refine isDetermined_of_body fun d r s readable' openings bodies => ?_
    cases d with
    | conj left' right' =>
      obtain ⟨-, lefts, rights, behind⟩ := (ihLeft readable.1).binary (ihRight readable.2)
        readable'.1 readable'.2 bodies
      exact ⟨congrArg₂ _ lefts rights, behind⟩
    | disj left' right' =>
      cases ((ihLeft readable.1).binary (ihRight readable.2) readable'.1 readable'.2 bodies).1
    | compare sign left' right' =>
      simp only [body, List.append_assoc] at bodies
      exact absurd bodies (chars_append_ne readable.1 readable'.1 rfl rfl _ _)
    | _ => cases openings
  | disj left right ihLeft ihRight =>
    refine isDetermined_of_body fun d r s readable' openings bodies => ?_
    cases d with
    | disj left' right' =>
      obtain ⟨-, lefts, rights, behind⟩ := (ihLeft readable.1).binary (ihRight readable.2)
        readable'.1 readable'.2 bodies
      exact ⟨congrArg₂ _ lefts rights, behind⟩
    | conj left' right' =>
      cases ((ihLeft readable.1).binary (ihRight readable.2) readable'.1 readable'.2 bodies).1
    | compare sign left' right' =>
      simp only [body, List.append_assoc] at bodies
      exact absurd bodies (chars_append_ne readable.1 readable'.1 rfl rfl _ _)
    | _ => cases openings
  | compare sign left right =>
    refine isDetermined_of_body fun d r s readable' openings bodies => ?_
    cases d with
    | compare sign' left' right' =>
      simp only [body, List.append_assoc] at bodies
      obtain ⟨rfl, afterLeft⟩ := left.chars_append_inj readable.1 readable'.1
        (Mark.endsWord _ _) (Mark.endsWord _ _) bodies
      obtain ⟨marks, afterMark⟩ := Mark.isPrefixCode.append_inj afterLeft
      obtain rfl := Mark.relation.inj marks
      obtain ⟨rfl, behind⟩ := right.chars_append_inj readable.2 readable'.2
        (endsWord_close r) (endsWord_close s) afterMark
      exact ⟨rfl, (List.cons.inj behind).2⟩
    | conj left' right' | disj left' right' =>
      simp only [body, List.append_assoc] at bodies
      exact absurd bodies.symm (chars_append_ne readable'.1 readable.1 rfl rfl _ _)
    | _ => cases openings
  | path quantifier modality inner ih =>
    refine isDetermined_of_body fun d r s readable' openings bodies => ?_
    cases d with
    | path quantifier' modality' inner' =>
      obtain ⟨rfl, rfl⟩ := Opening.path.inj openings
      obtain ⟨inners, behind⟩ := ih readable inner' _ _ readable' bodies
      exact ⟨by rw [bare, bare, inners], behind⟩
    | _ => cases openings
  | holdUntil quantifier before goal ihBefore ihGoal =>
    refine isDetermined_of_body fun d r s readable' openings bodies => ?_
    cases d with
    | holdUntil quantifier' before' goal' =>
      obtain rfl := Opening.holdUntil.inj openings
      obtain ⟨-, befores, goals, behind⟩ := (ihBefore readable.1).binary (ihGoal readable.2)
        readable'.1 readable'.2 bodies
      exact ⟨congrArg₂ _ befores goals, behind⟩
    | _ => cases openings
  | kSafe bound =>
    refine isDetermined_of_body fun d r s readable' openings bodies => ?_
    cases d with
    | kSafe bound' =>
      simp only [body, List.append_assoc] at bodies
      obtain ⟨rfl, behind⟩ := bound.chars_append_inj readable readable'
        (endsWord_close r) (endsWord_close s) bodies
      exact ⟨rfl, (List.cons.inj behind).2⟩
    | _ => cases openings
  | control inner ih =>
    refine isDetermined_of_body fun d r s readable' openings bodies => ?_
    cases d with
    | control inner' =>
      obtain ⟨inners, behind⟩ := (ih readable).closed inner' readable' bodies
      exact ⟨by rw [bare, bare, inners], behind⟩
    | _ => cases openings
  | probability goal settings inner observables ih =>
    refine isDetermined_of_body fun d r s readable' openings bodies => ?_
    cases d with
    | probability goal' settings' inner' observables' =>
      obtain rfl := Opening.probability.inj openings
      obtain ⟨inners, behind⟩ := ih readable inner' _ _ readable' bodies
      exact ⟨by rw [bare, bare, inners], behind⟩
    | _ => cases openings

end Condition

/-- **The text of a formula is unambiguous.** Two readable conditions with one text are equal but
for the settings and the observables of their statistical queries, and two readable expressions with
one text are equal. -/
theorem eq_of_equal_texts :
    (∀ c d : Condition, c.IsReadable → d.IsReadable → c.render = d.render → c.bare = d.bare)
      ∧ ∀ x y : Expr, x.IsReadable → y.IsReadable → x.render = y.render → x = y := by
  constructor
  · intro c d readable readable' same
    have chars : c.chars ++ [] = d.chars ++ [] := by
      rw [String.ofList_inj.1 same]
    exact (readable.isDetermined d [] [] readable' chars).1
  · intro x y readable readable' same
    have chars : x.chars ++ [] = y.chars ++ [] := by
      rw [String.ofList_inj.1 same]
    have stop : EndsWord [] := nofun
    exact (x.chars_append_inj readable readable' stop stop chars).1

/-- `PF EX ((EX - -1) < true)`, over places that are named like operators. -/
def keywords (settings : Sampling) (observables : List Observable) : Condition :=
  .probability .eventually settings
    (.ex (.compare .less (.chain .difference [.place "EX", .literal (-1)]) (.place "true")))
    observables

theorem isReadable_keywords (settings : Sampling) (observables : List Observable) :
    (keywords settings observables).IsReadable := by
  have first : IsPlaceName "EX" := by decide +kernel
  have second : IsPlaceName "true" := by decide +kernel
  exact ⟨⟨Nat.le_refl 2, first, trivial, trivial⟩, second⟩

theorem eq_of_equal_texts_of_keywords :
    (keywords ⟨5, 5, .zero, .zero, .zero, .zero, .zero, .zero, true, .zero⟩
        [("tokens", .place "p")]).bare = (keywords .default []).bare
      ∧ Expr.literal (-1) = .literal (-1) :=
  ⟨eq_of_equal_texts.1 _ _ (isReadable_keywords _ _) (isReadable_keywords _ _) rfl,
    eq_of_equal_texts.2 _ _ trivial trivial rfl⟩

/-- A chain of one operand is not readable, and neither is a place that is named like a number. -/
example : (Expr.chain .sum [.literal 1]).render = (Expr.chain .product [.literal 1]).render
    ∧ (Expr.place "1").render = (Expr.literal 1).render := ⟨rfl, by decide +kernel⟩

/-! ## Translations -/

/-- All places are named by words. -/
def HasPlaceNames (names : List String) : Prop := ∀ name ∈ names, IsPlaceName name

theorem hasPlaceNames_append {names names' : List String} (h : HasPlaceNames (names ++ names')) :
    HasPlaceNames names ∧ HasPlaceNames names' := List.forall_mem_append.1 h

mutual

/-- A well-formed expression over places that are named by words is readable. -/
theorem Expr.WellFormed.isReadable : ∀ {x : Expr}, x.WellFormed → HasPlaceNames x.mentions →
    x.IsReadable
  | .literal _, _, _ => trivial
  | .place name, _, named => named name (List.mem_singleton_self name)
  | .chain _ _, ⟨two, all⟩, named => ⟨two, Expr.AllWellFormed.allReadable all named⟩

/-- Well-formed expressions over places that are named by words are readable. -/
theorem Expr.AllWellFormed.allReadable : ∀ {xs : List Expr}, Expr.AllWellFormed xs →
    HasPlaceNames (Expr.mentionsList xs) → Expr.AllReadable xs
  | [], _, _ => trivial
  | _ :: _, ⟨first, others⟩, named =>
    ⟨first.isReadable (hasPlaceNames_append named).1,
      Expr.AllWellFormed.allReadable others (hasPlaceNames_append named).2⟩

end

/-- A plain condition over places that are named by words is readable. -/
theorem Condition.IsPlain.isReadable {c : Condition} (plain : c.IsPlain)
    (named : HasPlaceNames c.mentions) : c.IsReadable := by
  induction c with
  | truth _ | deadlock => trivial
  | neg inner ih | path _ _ inner ih => exact ih plain named
  | conj left right first second | disj left right first second
  | holdUntil _ left right first second =>
    obtain ⟨named, named'⟩ := hasPlaceNames_append named
    exact ⟨first plain.1 named, second plain.2 named'⟩
  | compare _ left right =>
    obtain ⟨named, named'⟩ := hasPlaceNames_append named
    exact ⟨plain.1.isReadable named, plain.2.isReadable named'⟩
  | kSafe _ | control _ _ | probability _ _ _ _ _ => exact plain.elim

/-- The query of a property is readable if its places are named by words. -/
theorem isReadable_of_propertyQuery {limit : Nat} {e body : Document.Element} {id : String}
    {query : Condition}
    (read : (Grammar.propertyQuery limit (Grammar.partsOf e) id body).result = .ok query)
    (named : HasPlaceNames query.mentions) : query.IsReadable := by
  rcases Grammar.exists_denotes_of_propertyQuery read with
    ⟨-, k, -, denotes⟩ | ⟨-, goal, made, c, watched, -, ⟨k, -, denotes⟩, rfl, -⟩
  · cases denotes with
    | kSafe denotes => exact denotes.wellFormed.isReadable named
    | control denotes | plain denotes => exact denotes.isPlain.isReadable named
  · cases denotes with
    | mk goal denotes => exact denotes.isPlain.isReadable (hasPlaceNames_append named).1

end PetriQuery.Query
