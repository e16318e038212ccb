import PetriQuery.Json
import PetriQuery.Proofs.Numeral.Text

/-!
# JSON texts are unambiguous

Two JSON values with the same text are equal, if their fractions are finite. Every text says by its
first character of which kind the value is (`kindOf?`), and where it ends: a string at the first
quote that is not escaped, a number in front of the first character that no number is written with,
and an array or an object at its own bracket. So no text can be taken for the beginning of another
one (`onto_inj`).
-/

set_option autoImplicit false

namespace PetriQuery.Json

open Numeral
open Numeral.Layout (finite_chars finite_inj isNumberChar plus_json)

/-! ## Strings -/

/-- The value of a hexadecimal digit in lower case. -/
def hexValue (c : Char) : Nat :=
  if c.isDigit then c.toNat - '0'.toNat else c.toNat - 'a'.toNat + 10

theorem hexValue_hexDigit {n : Nat} (small : n < 16) : hexValue (hexDigit n) = n := by
  have all : ∀ n : Fin 16, hexValue (hexDigit n) = n := by decide
  exact all ⟨n, small⟩

/-- What a letter behind a backslash stands for. -/
def unescape (c : Char) : Char :=
  if c = 'b' then '\x08' else if c = 'f' then '\x0c' else if c = 'n' then '\n'
  else if c = 'r' then '\r' else if c = 't' then '\t' else c

/-- The first character of a string, which may be escaped, and what is behind it. -/
def readEscape? : List Char → Option (Char × List Char)
  | [] => none
  | '\\' :: 'u' :: _ :: _ :: high :: low :: rest =>
    some (Char.ofNat (16 * hexValue high + hexValue low), rest)
  | '\\' :: c :: rest => some (unescape c, rest)
  | c :: rest => some (c, rest)

/-- An escaped character is read back. -/
theorem readEscape?_escape (c : Char) (rest : List Char) :
    readEscape? (escape c ++ rest) = some (c, rest) := by
  by_cases letter : c ∈ ['"', '\\', '\x08', '\x0c', '\n', '\r', '\t']
  · simp only [List.mem_cons, List.not_mem_nil, or_false] at letter
    rcases letter with rfl | rfl | rfl | rfl | rfl | rfl | rfl <;> rfl
  · simp only [List.mem_cons, List.not_mem_nil, or_false, not_or] at letter
    simp only [escape, letter, if_false]
    split
    · have high : c.toNat / 16 < 16 := by omega
      have low : c.toNat % 16 < 16 := Nat.mod_lt _ (by decide)
      change some (Char.ofNat (16 * hexValue _ + hexValue _), rest) = _
      rw [hexValue_hexDigit high, hexValue_hexDigit low, Nat.div_add_mod, Char.ofNat_toNat]
    · rw [List.singleton_append, readEscape?]
      · intro _ _ _ _ _ backslash
        exact absurd backslash letter.2.1
      · intro _ _ backslash
        exact absurd backslash letter.2.1

/-- No escaped character begins with a quote. -/
theorem exists_escape_eq (c : Char) : ∃ d ds, escape c = d :: ds ∧ d ≠ '"' := by
  by_cases quote : c = '"'
  · exact ⟨'\\', ['"'], by rw [quote]; rfl, by decide⟩
  · unfold escape
    split_ifs <;> exact ⟨_, _, rfl, by first | decide | exact quote⟩

/-- Escaped characters and the quote behind them tell what the characters are. -/
theorem flatMap_escape_inj {cs ds rest rest' : List Char}
    (same : cs.flatMap escape ++ '"' :: rest = ds.flatMap escape ++ '"' :: rest') :
    cs = ds ∧ rest = rest' := by
  induction cs generalizing ds with
  | nil =>
    cases ds with
    | nil => exact ⟨rfl, (List.cons.inj same).2⟩
    | cons d ds =>
      obtain ⟨e, es, escaped, other⟩ := exists_escape_eq d
      rw [List.flatMap_cons, escaped] at same
      exact absurd (List.cons.inj same).1.symm other
  | cons c cs ih =>
    cases ds with
    | nil =>
      obtain ⟨e, es, escaped, other⟩ := exists_escape_eq c
      rw [List.flatMap_cons, escaped] at same
      exact absurd (List.cons.inj same).1 other
    | cons d ds =>
      have read := readEscape?_escape c (cs.flatMap escape ++ '"' :: rest)
      rw [← List.append_assoc, ← List.flatMap_cons, same, List.flatMap_cons, List.append_assoc,
        readEscape?_escape] at read
      obtain ⟨rfl, others⟩ := Prod.mk.inj (Option.some.inj read)
      obtain ⟨rfl, behind⟩ := ih others.symm
      exact ⟨rfl, behind⟩

/-- A string ends at its quote, whatever is behind it. -/
theorem quoted_append_inj {s t : String} {rest rest' : List Char}
    (same : quoted s ++ rest = quoted t ++ rest') : s = t ∧ rest = rest' := by
  simp only [quoted, List.cons_append, List.append_assoc, List.cons.injEq, true_and] at same
  obtain ⟨chars, behind⟩ := flatMap_escape_inj same
  exact ⟨String.toList_inj.1 chars, behind⟩

/-! ## Numbers -/

/-- The text is not continued with a character that numbers are written with. -/
def Stops (rest : List Char) : Prop := ∀ c ∈ rest.head?, isNumberChar c = false

/-- A number ends where the text is not continued. -/
theorem number_append_inj {cs ds rest rest' : List Char} (number : ∀ c ∈ cs, isNumberChar c = true)
    (number' : ∀ c ∈ ds, isNumberChar c = true) (stop : Stops rest) (stop' : Stops rest')
    (same : cs ++ rest = ds ++ rest') : cs = ds ∧ rest = rest' := by
  have split := span_append number stop
  rw [same, span_append number' stop'] at split
  exact ⟨(Prod.mk.inj split).1.symm, (Prod.mk.inj split).2.symm⟩

/-- The text of an integer has no point and no exponent. -/
theorem int_chars (n : Int) : (∀ c ∈ (toString n).toList, isNumberChar c = true)
    ∧ ¬ ('.' ∈ (toString n).toList ∨ 'e' ∈ (toString n).toList) := by
  have numeral := (isNumeral_toString n).1
  constructor
  · intro c member
    rcases isDigit_or_sign_of_isNumeral numeral member with digit | rfl | rfl
    · rw [isNumberChar, digit]
      rfl
    · rfl
    · rfl
  · rintro (point | exponent)
    · rcases isDigit_or_sign_of_isNumeral numeral point with digit | same | same
      · cases digit
      · cases same
      · cases same
    · rcases isDigit_or_sign_of_isNumeral numeral exponent with digit | same | same
      · cases digit
      · cases same
      · cases same

/-- The text of an integer determines it. -/
theorem int_inj {m n : Int} (same : (toString m).toList = (toString n).toList) : m = n := by
  rw [← (isNumeral_toString m).2, same, (isNumeral_toString n).2]

/-! ## Kinds -/

mutual

/-- All fractions in the value are finite. -/
def Exact : Json → Prop
  | .null | .bool _ | .int _ | .string _ => True
  | .fraction value => value.isFinite = true
  | .array items => AllExact items
  | .object members => MembersExact members

/-- All fractions in the values of a list are finite. -/
def AllExact : List Json → Prop
  | [] => True
  | item :: items => item.Exact ∧ AllExact items

/-- All fractions in the values of the members of an object are finite. -/
def MembersExact : List (String × Json) → Prop
  | [] => True
  | (_, value) :: members => value.Exact ∧ MembersExact members

end

/-- The fractions in a list are those of its values. -/
theorem allExact_iff {items : List Json} : AllExact items ↔ ∀ item ∈ items, item.Exact := by
  induction items with
  | nil => simp [AllExact]
  | cons item items ih => rw [AllExact, ih, List.forall_mem_cons]

/-- What the first character of a text tells of the value. -/
inductive Kind where
  | null
  | bool
  | number
  | string
  | array
  | object
deriving DecidableEq

/-- The kind of a value. -/
def kind : Json → Kind
  | .null => .null
  | .bool _ => .bool
  | .int _ | .fraction _ => .number
  | .string _ => .string
  | .array _ => .array
  | .object _ => .object

/-- The kind of a value whose text begins with the character. -/
def kindOf? (c : Char) : Option Kind :=
  if c = 'n' then some .null
  else if c = 't' ∨ c = 'f' then some .bool
  else if c = '"' then some .string
  else if c = '[' then some .array
  else if c = '\x7b' then some .object
  else if isNumberChar c then some .number
  else none

/-- Line breaks and indentation are blank. -/
def Style.IsBlank (style : Style) : Prop :=
  ∀ level, ∀ c ∈ style.lineBreak level, c = ' ' ∨ c = '\n'

theorem isBlank_pretty : Style.IsBlank .pretty := by
  intro level c member
  rcases List.mem_cons.1 member with newline | space
  · exact Or.inr newline
  · exact Or.inl (List.eq_of_mem_replicate space)

variable {style : Style} {level : Nat}

/-- A character that numbers are written with tells that the value is one. -/
theorem kindOf?_of_isNumberChar {c : Char} (number : isNumberChar c = true) :
    kindOf? c = some .number := by
  have other : ∀ d : Char, isNumberChar d = false → c ≠ d := by
    rintro d none rfl
    rw [number] at none
    cases none
  simp [kindOf?, other 'n' rfl, other 't' rfl, other 'f' rfl, other '"' rfl, other '[' rfl,
    other '\x7b' rfl, number]

/-- The text of a number tells that the value is one. -/
theorem kindOf?_number {cs : List Char} (number : ∀ c ∈ cs, isNumberChar c = true)
    (notEmpty : cs ≠ []) (rest : List Char) :
    (cs ++ rest).head?.bind kindOf? = some .number := by
  cases cs with
  | nil => exact absurd rfl notEmpty
  | cons c cs => exact kindOf?_of_isNumberChar (number c List.mem_cons_self)

/-- The text of a finite fraction is that of the number. -/
theorem onto_fraction {value : Binary32} (finite : value.isFinite = true) (rest : List Char) :
    (Json.fraction value).onto style level rest = (Layout.json.finite value).toList ++ rest := by
  rw [onto, if_pos finite]

/-- The first character of a text tells the kind of the value. -/
theorem kindOf?_onto {v : Json} (exact : v.Exact) (rest : List Char) :
    (v.onto style level rest).head?.bind kindOf? = some v.kind := by
  cases v with
  | null => rfl
  | bool value => cases value <;> rfl
  | int value =>
    rw [onto]
    apply kindOf?_number (int_chars value).1
    exact (isNumeral_toString value).1.ne_nil
  | fraction value =>
    rw [onto_fraction exact]
    obtain ⟨number, point⟩ := finite_chars plus_json value
    apply kindOf?_number number
    intro none
    rw [none] at point
    exact point.elim List.not_mem_nil List.not_mem_nil
  | string value => rfl
  | array items => cases items <;> rfl
  | object members => cases members <;> rfl

/-- No value begins with a closing bracket, with a line break in front of it or without one. -/
theorem ne_onto {v : Json} (exact : v.Exact) (blank : style.IsBlank) {c : Char}
    (closing : c = ']' ∨ c = '\x7d') (rest rest' : List Char) :
    c :: rest' ≠ style.lineBreak level ++ v.onto style level rest := by
  intro same
  cases gap : style.lineBreak level with
  | nil =>
    have kind : (v.onto style level rest).head?.bind kindOf? = some v.kind :=
      kindOf?_onto exact rest
    rw [gap, List.nil_append] at same
    rw [← same] at kind
    rcases closing with rfl | rfl
    · cases kind
    · cases kind
  | cons d ds =>
    rw [gap] at same
    obtain ⟨rfl, -⟩ := List.cons.inj same
    have space := blank level c (gap ▸ List.mem_cons_self)
    rcases closing with rfl | rfl
    · exact absurd space (by decide)
    · exact absurd space (by decide)

/-- No key begins with a closing brace. -/
theorem ne_key (blank : style.IsBlank) (key : String) (rest rest' : List Char) :
    '\x7d' :: rest' ≠ style.lineBreak level ++ quoted key ++ style.colon ++ rest := by
  have text : Exact (.string key) := trivial
  rw [List.append_assoc, List.append_assoc]
  exact ne_onto text blank (Or.inr rfl) (style.colon ++ rest) rest'

/-- A comma or a closing bracket behind a line break stops a number. -/
theorem stops_lineBreak (blank : style.IsBlank) {c : Char} (other : isNumberChar c = false)
    (rest : List Char) : Stops (style.lineBreak level ++ c :: rest) := by
  intro d first
  cases gap : style.lineBreak level with
  | nil =>
    rw [gap] at first
    obtain rfl := Option.some.inj first
    exact other
  | cons e es =>
    rw [gap] at first
    obtain rfl := Option.some.inj first
    rcases blank level e (gap ▸ List.mem_cons_self) with rfl | rfl
    · rfl
    · rfl

theorem stops_itemsOnto (blank : style.IsBlank) (rest : List Char) (items : List Json) :
    Stops (itemsOnto style level rest items) := by
  cases items with
  | nil => exact stops_lineBreak blank rfl rest
  | cons item items =>
    rintro c ⟨rfl⟩
    rfl

theorem stops_membersOnto (blank : style.IsBlank) (rest : List Char)
    (members : List (String × Json)) : Stops (membersOnto style level rest members) := by
  cases members with
  | nil => exact stops_lineBreak blank rfl rest
  | cons member members =>
    rintro c ⟨rfl⟩
    rfl

/-- A list of items that goes on is not one that ends. -/
theorem lineBreak_ne_comma (blank : style.IsBlank) {c : Char} (closing : c ≠ ',')
    (rest rest' : List Char) : style.lineBreak level ++ c :: rest ≠ ',' :: rest' := by
  intro same
  cases gap : style.lineBreak level with
  | nil =>
    rw [gap] at same
    exact closing (List.cons.inj same).1
  | cons d ds =>
    rw [gap] at same
    have comma : d = ',' := (List.cons.inj same).1
    have space := blank level d (gap ▸ List.mem_cons_self)
    rw [comma] at space
    exact absurd space (by decide)

/-! ## Texts -/

/-- Values with one text are of one kind. -/
theorem kind_eq_of_onto {v w : Json} (exact : v.Exact) (exact' : w.Exact) {rest rest' : List Char}
    (same : v.onto style level rest = w.onto style level rest') : v.kind = w.kind := by
  have kind : (v.onto style level rest).head?.bind kindOf? = some v.kind := kindOf?_onto exact rest
  rw [same, kindOf?_onto exact' rest'] at kind
  exact (Option.some.inj kind).symm

/-- The text of a number is one of its own, and only the numbers that are no integers have a point
or an exponent in it. -/
theorem number_inj {v w : Json} (exact : v.Exact) (exact' : w.Exact) (number : v.kind = .number)
    {rest rest' : List Char} (stop : Stops rest) (stop' : Stops rest')
    (same : v.onto style level rest = w.onto style level rest') : v = w ∧ rest = rest' := by
  have number' : w.kind = .number := (kind_eq_of_onto exact exact' same).symm.trans number
  cases v with
  | int m =>
    obtain ⟨chars, noPoint⟩ := int_chars m
    cases w with
    | int n =>
      obtain ⟨texts, behind⟩ := number_append_inj chars (int_chars n).1 stop stop' same
      exact ⟨congrArg Json.int (int_inj texts), behind⟩
    | fraction y =>
      rw [onto_fraction exact'] at same
      obtain ⟨chars', point⟩ := finite_chars plus_json y
      obtain ⟨texts, -⟩ := number_append_inj chars chars' stop stop' same
      rw [texts] at noPoint
      exact absurd point noPoint
    | _ => cases number'
  | fraction x =>
    rw [onto_fraction exact] at same
    obtain ⟨chars, point⟩ := finite_chars plus_json x
    cases w with
    | int n =>
      obtain ⟨chars', noPoint⟩ := int_chars n
      obtain ⟨texts, -⟩ := number_append_inj chars chars' stop stop' same
      rw [← texts] at noPoint
      exact absurd point noPoint
    | fraction y =>
      rw [onto_fraction exact'] at same
      obtain ⟨texts, behind⟩ :=
        number_append_inj chars (finite_chars plus_json y).1 stop stop' same
      exact ⟨congrArg Json.fraction (finite_inj plus_json (String.toList_inj.1 texts)), behind⟩
    | _ => cases number'
  | _ => cases number

mutual

/-- **No text of a value is the beginning of the text of another one**, as long as what is behind it
continues no number. -/
theorem onto_inj (blank : style.IsBlank) {level : Nat} : ∀ (v : Json) {w : Json}
    {rest rest' : List Char}, v.Exact → w.Exact → Stops rest → Stops rest' →
    v.onto style level rest = w.onto style level rest' → v = w ∧ rest = rest'
  | .null, w, _, _, exact, exact', _, _, same => by
    -- Values of one kind have one constructor, but for numbers, which `number_inj` compares.
    have kinds := kind_eq_of_onto exact exact' same
    cases w with
    | null => exact ⟨rfl, List.append_cancel_left same⟩
    | _ => cases kinds
  | .bool a, w, _, _, exact, exact', _, _, same => by
    have kinds := kind_eq_of_onto exact exact' same
    cases w with
    | bool b =>
      cases a with
      | true =>
        cases b with
        | true => exact ⟨rfl, List.append_cancel_left same⟩
        | false => cases (List.cons.inj same).1
      | false =>
        cases b with
        | true => cases (List.cons.inj same).1
        | false => exact ⟨rfl, List.append_cancel_left same⟩
    | _ => cases kinds
  | .int _, _, _, _, exact, exact', stop, stop', same =>
    number_inj exact exact' rfl stop stop' same
  | .fraction _, _, _, _, exact, exact', stop, stop', same =>
    number_inj exact exact' rfl stop stop' same
  | .string s, w, _, _, exact, exact', _, _, same => by
    have kinds := kind_eq_of_onto exact exact' same
    cases w with
    | string t =>
      obtain ⟨rfl, behind⟩ := quoted_append_inj same
      exact ⟨rfl, behind⟩
    | _ => cases kinds
  | .array items, w, rest, rest', exact, exact', _, _, same => by
    have kinds := kind_eq_of_onto exact exact' same
    cases w with
    | array items' =>
      match items, items' with
      | [], [] => exact ⟨rfl, (List.cons.inj (List.cons.inj same).2).2⟩
      | [], _ :: _ => exact absurd (List.cons.inj same).2 (ne_onto exact'.1 blank (Or.inl rfl) _ _)
      | _ :: _, [] =>
        exact absurd (List.cons.inj same).2.symm (ne_onto exact.1 blank (Or.inl rfl) _ _)
      | item :: items, item' :: items' =>
        -- Behind the opening bracket an array goes on as behind a comma.
        obtain ⟨all, behind⟩ := itemsOnto_inj blank (item :: items) exact exact'
          (congrArg (List.cons ',') (List.cons.inj same).2)
        exact ⟨congrArg Json.array all, behind⟩
    | _ => cases kinds
  | .object members, w, rest, rest', exact, exact', _, _, same => by
    have kinds := kind_eq_of_onto exact exact' same
    cases w with
    | object members' =>
      match members, members' with
      | [], [] => exact ⟨rfl, (List.cons.inj (List.cons.inj same).2).2⟩
      | [], (key, value) :: members' =>
        exact absurd (List.cons.inj same).2 (ne_key blank key _ _)
      | (key, value) :: members, [] =>
        exact absurd (List.cons.inj same).2.symm (ne_key blank key _ _)
      | member :: members, member' :: members' =>
        obtain ⟨all, behind⟩ := membersOnto_inj blank (member :: members) exact exact'
          (congrArg (List.cons ',') (List.cons.inj same).2)
        exact ⟨congrArg Json.object all, behind⟩
    | _ => cases kinds

/-- The items of an array end at its closing bracket. -/
theorem itemsOnto_inj (blank : style.IsBlank) {level : Nat} : ∀ (items : List Json)
    {items' : List Json} {rest rest' : List Char}, AllExact items → AllExact items' →
    itemsOnto style level rest items = itemsOnto style level rest' items' →
    items = items' ∧ rest = rest'
  | [], [], _, _, _, _, same => ⟨rfl, (List.cons.inj (List.append_cancel_left same)).2⟩
  | [], _ :: _, _, _, _, _, same => absurd same (lineBreak_ne_comma blank (by decide) _ _)
  | _ :: _, [], _, _, _, _, same => absurd same.symm (lineBreak_ne_comma blank (by decide) _ _)
  | item :: items, item' :: items', rest, rest', exact, exact', same => by
    obtain ⟨first, others⟩ := onto_inj blank item exact.1 exact'.1
      (stops_itemsOnto blank rest items) (stops_itemsOnto blank rest' items')
      (List.append_cancel_left (List.cons.inj same).2)
    obtain ⟨all, behind⟩ := itemsOnto_inj blank items exact.2 exact'.2 others
    exact ⟨congrArg₂ List.cons first all, behind⟩

/-- The members of an object end at its closing brace. -/
theorem membersOnto_inj (blank : style.IsBlank) {level : Nat} :
    ∀ (members : List (String × Json)) {members' : List (String × Json)} {rest rest' : List Char},
    MembersExact members → MembersExact members' →
    membersOnto style level rest members = membersOnto style level rest' members' →
    members = members' ∧ rest = rest'
  | [], [], _, _, _, _, same => ⟨rfl, (List.cons.inj (List.append_cancel_left same)).2⟩
  | [], _ :: _, _, _, _, _, same => absurd same (lineBreak_ne_comma blank (by decide) _ _)
  | _ :: _, [], _, _, _, _, same => absurd same.symm (lineBreak_ne_comma blank (by decide) _ _)
  | (key, value) :: members, (key', value') :: members', rest, rest', exact, exact', same => by
    simp only [membersOnto, List.cons_append, List.append_assoc, List.cons.injEq, true_and] at same
    obtain ⟨rfl, values⟩ := quoted_append_inj (List.append_cancel_left same)
    obtain ⟨first, others⟩ := onto_inj blank value exact.1 exact'.1
      (stops_membersOnto blank rest members) (stops_membersOnto blank rest' members')
      (List.append_cancel_left values)
    obtain ⟨all, behind⟩ := membersOnto_inj blank members exact.2 exact'.2 others
    exact ⟨congrArg₂ List.cons (congrArg (Prod.mk key) first) all, behind⟩

end

/-- Values with one pretty text are equal. -/
theorem pretty_inj {v w : Json} (exact : v.Exact) (exact' : w.Exact) (same : v.pretty = w.pretty) :
    v = w := by
  have stop : Stops [] := fun c member => absurd member (by simp)
  exact (onto_inj isBlank_pretty v exact exact' stop stop (String.ofList_inj.1 same)).1

end PetriQuery.Json
