import PetriQuery.Numeral.Layout
import PetriQuery.Proofs.Numeral.Fraction
import PetriQuery.Proofs.Numeral.Shortest

/-!
# The text of a number

The text of a number of the format binary32 is a sign and a decimal numeral. The numeral is read to
the shortest decimal of the number, wherever the point stands in it (`Layout.exists_numeral`).
As no decimal is the shortest of two magnitudes, the text determines the number, bit for bit
(`Layout.finite_inj`).
-/

set_option autoImplicit false

namespace PetriQuery.Numeral

/-! ## Values of digits -/

/-- The value of digits behind others. -/
theorem digitsValue_append (cs ds : List Char) :
    digitsValue (cs ++ ds) = digitsValue cs * 10 ^ ds.length + digitsValue ds := by
  have start : ∀ (ds : List Char) (n : Nat),
      ds.foldl (fun value c => value * 10 + (c.toNat - '0'.toNat)) n
        = n * 10 ^ ds.length + digitsValue ds := by
    intro ds
    induction ds with
    | nil => simp [digitsValue]
    | cons d ds ih =>
      intro n
      rw [digitsValue, List.foldl_cons, List.foldl_cons, ih, ih, List.length_cons, Nat.pow_succ']
      ring
  rw [digitsValue, List.foldl_append, start]
  rfl

/-- Zeros are digits. -/
theorem allDigits_zeros (n : Nat) : AllDigits (zeros n) := by
  intro c member
  rw [List.eq_of_mem_replicate member]
  rfl

/-- Zeros have no value. -/
theorem digitsValue_zeros (n : Nat) : digitsValue (zeros n) = 0 := by
  induction n with
  | zero => rfl
  | succ n ih =>
    have one := digitsValue_append ['0'] (zeros n)
    rw [ih, show digitsValue ['0'] = 0 from rfl, Nat.zero_mul] at one
    exact one

/-- Zeros in front of digits do not count. -/
theorem digitsValue_zeros_append (n : Nat) (ds : List Char) :
    digitsValue (zeros n ++ ds) = digitsValue ds := by
  rw [digitsValue_append, digitsValue_zeros, Nat.zero_mul, Nat.zero_add]

/-- Zeros behind digits multiply them by a power of ten. -/
theorem digitsValue_append_zeros (ds : List Char) (n : Nat) :
    digitsValue (ds ++ zeros n) = digitsValue ds * 10 ^ n := by
  rw [digitsValue_append, digitsValue_zeros, Nat.add_zero, zeros, List.length_replicate]

/-- Digits have the value that they have without the zeros in front of them. -/
theorem digitsValue_dropWhile (cs : List Char) :
    digitsValue (cs.dropWhile (· = '0')) = digitsValue cs := by
  induction cs with
  | nil => rfl
  | cons c cs ih =>
    rw [List.dropWhile_cons]
    split
    · next zero =>
      obtain rfl : c = '0' := of_decide_eq_true zero
      exact ih.trans (digitsValue_zeros_append 1 cs).symm
    · rfl

/-- The digits of a natural number have its value. -/
theorem digitsValue_toDigits (n : Nat) : digitsValue (Nat.toDigits 10 n) = n := by
  have same : ∀ (cs : List Char) (start : Nat),
      cs.foldl (fun value c => value * 10 + (c.toNat - '0'.toNat)) start
        = Nat.ofDigitChars 10 cs start := by
    intro cs
    induction cs with
    | nil => simp
    | cons c cs ih =>
      intro start
      rw [List.foldl_cons, ih, Nat.ofDigitChars_cons, Nat.mul_comm]
  rw [digitsValue, same, Nat.ofDigitChars_toDigits (by decide) (Nat.le_refl 10)]

/-! ## Reading decimals -/

/-- The value of a numeral. -/
def Decimal.value (d : Decimal) : ℚ := decimalValue d.digits d.exponent

/-- A numeral with a point has the value of all its digits, set by the point and the exponent. -/
theorem exists_readDecimal?_of_point {whole fraction exponent : List Char} {e : Int}
    (digits : AllDigits whole) (digits' : AllDigits fraction) (notEmpty : whole ++ fraction ≠ [])
    (read : readExponent? exponent = some e) :
    ∃ d, readDecimal? (whole ++ '.' :: (fraction ++ exponent)) = some d
      ∧ d.value = decimalValue (digitsValue (whole ++ fraction)) (e - fraction.length) := by
  have point : ∀ c ∈ ('.' :: (fraction ++ exponent)).head?, c.isDigit = false := by
    rintro c ⟨rfl⟩
    rfl
  have stop := head?_of_isExponent
    (isSome_readExponent?_iff.1 (Option.isSome_iff_exists.2 ⟨e, read⟩))
  have some : (whole ++ fraction).isEmpty = false := List.isEmpty_eq_false_iff.2 notEmpty
  rw [readDecimal?, span_append digits point]
  simp only [splitFraction, span_append digits' fun c first => (stop c first).1, some, read,
    Bool.false_eq_true, if_false, Option.map_some, Option.some.injEq, exists_eq_left',
    Decimal.value, digitsValue_dropWhile]

/-- A numeral without a point has the value of its digits, set by the exponent. -/
theorem exists_readDecimal?_of_digits {whole exponent : List Char} {e : Int}
    (digits : AllDigits whole) (notEmpty : whole ≠ []) (read : readExponent? exponent = some e) :
    ∃ d, readDecimal? (whole ++ exponent) = some d
      ∧ d.value = decimalValue (digitsValue whole) e := by
  have stop := head?_of_isExponent
    (isSome_readExponent?_iff.1 (Option.isSome_iff_exists.2 ⟨e, read⟩))
  have some : whole.isEmpty = false := List.isEmpty_eq_false_iff.2 notEmpty
  rw [readDecimal?, span_append digits fun c first => (stop c first).1]
  simp only [splitFraction_of_ne fun c first => (stop c first).2, List.append_nil, some, read,
    Bool.false_eq_true, if_false, Option.map_some, Option.some.injEq, exists_eq_left',
    Decimal.value, digitsValue_dropWhile, List.length_nil, Nat.cast_zero, Int.sub_zero]

/-- A power of ten moves between a number and its exponent. -/
theorem decimalValue_mul_pow (n k : Nat) (power : Int) :
    decimalValue (n * 10 ^ k) power = decimalValue n (k + power) := by
  rw [decimalValue, decimalValue, zpow_add₀ (by norm_num), zpow_natCast, Nat.cast_mul, Nat.cast_pow,
    Nat.cast_ofNat, mul_assoc]

/-- The sign and the magnitude of a number are all its bits. -/
theorem Binary32.ext_magnitude {x y : Binary32} (signs : x.isNegative = y.isNegative)
    (magnitudes : x.magnitude = y.magnitude) : x = y := by
  have bit : Binary32.signBit = 2 ^ 31 := rfl
  obtain ⟨bits⟩ := x
  obtain ⟨bits'⟩ := y
  have small := bits.toNat_lt
  have small' := bits'.toNat_lt
  congr 1
  apply UInt32.toNat.inj
  simp only [Binary32.isNegative, decide_eq_decide, bit] at signs
  simp only [Binary32.magnitude, bit] at magnitudes
  omega

/-! ## Layouts -/

namespace Layout

theorem plus_json : Layout.json.plus = "+" := rfl

/-- Nothing is read as the exponent zero. -/
theorem readExponent?_nil : readExponent? [] = some 0 := rfl

/-- An exponent behind a sign is read. -/
theorem readExponent?_signed (n : Nat) :
    readExponent? ('e' :: '-' :: Nat.toDigits 10 n) = some (-(n : Int))
      ∧ readExponent? ('e' :: '+' :: Nat.toDigits 10 n) = some n := by
  have some : (Nat.toDigits 10 n).isEmpty = false :=
    List.isEmpty_eq_false_iff.2 Nat.toDigits_ne_nil
  have all : (Nat.toDigits 10 n).all Char.isDigit = true :=
    List.all_eq_true.2 (isDigits_toDigits n).2
  constructor
  · simp [readExponent?, splitSign, some, all, digitsValue_toDigits]
  · simp [readExponent?, splitSign, some, all, digitsValue_toDigits]

/-- An exponent that a layout writes is read back. -/
theorem readExponent?_of_layout {layout : Layout} (plus : layout.plus = "+") (exponent : Int) :
    readExponent? ('e' :: (if exponent < 0 then "-" else layout.plus).toList
        ++ (toString exponent.natAbs).toList) = some exponent := by
  rw [show (toString exponent.natAbs).toList = Nat.toDigits 10 exponent.natAbs from Nat.toList_repr,
    plus]
  by_cases negative : exponent < 0
  · rw [if_pos negative]
    refine (readExponent?_signed exponent.natAbs).1.trans (congrArg some ?_)
    omega
  · rw [if_neg negative]
    refine (readExponent?_signed exponent.natAbs).2.trans (congrArg some ?_)
    omega

section Place

variable {first : Char} {rest : List Char} (digits : AllDigits (first :: rest))

include digits

/-- Digits behind a point and zeros are read. -/
theorem exists_readDecimal?_of_small {exponent : Int} (small : exponent < 0) :
    ∃ d, readDecimal? ('0' :: '.' :: zeros (-exponent - 1).toNat ++ first :: rest) = some d
      ∧ d.value = decimalValue (digitsValue (first :: rest)) (exponent - rest.length) := by
  have all : AllDigits (zeros (-exponent - 1).toNat ++ first :: rest) :=
    List.forall_mem_append.2 ⟨allDigits_zeros _, digits⟩
  obtain ⟨d, read, value⟩ :=
    exists_readDecimal?_of_point (allDigits_zeros 1) all nofun readExponent?_nil
  rw [List.append_nil] at read
  refine ⟨d, read, value.trans ?_⟩
  -- The zeros in front of the digits count for the place of the point alone.
  congr 1
  · exact digitsValue_zeros_append ((-exponent - 1).toNat + 1) (first :: rest)
  · rw [List.length_append, zeros, List.length_replicate, List.length_cons]
    omega

/-- Digits with the point behind them are read, or with the point among them. -/
theorem exists_readDecimal?_of_plain (whole : Nat) :
    ∃ d, readDecimal? (first :: rest.take whole ++ zeros (whole - rest.length)
        ++ '.' :: if (rest.drop whole).isEmpty then ['0'] else rest.drop whole) = some d
      ∧ d.value = decimalValue (digitsValue (first :: rest)) (whole - rest.length) := by
  by_cases behind : rest.length ≤ whole
  · -- The zero behind the point is one more zero behind the digits.
    have all : AllDigits (first :: rest ++ zeros (whole - rest.length)) :=
      List.forall_mem_append.2 ⟨digits, allDigits_zeros _⟩
    have zero : AllDigits ['0'] := allDigits_zeros 1
    obtain ⟨d, read, value⟩ := exists_readDecimal?_of_point all zero nofun readExponent?_nil
    rw [List.append_nil] at read
    rw [List.take_of_length_le behind, List.drop_of_length_le behind, List.isEmpty_nil,
      if_pos rfl]
    refine ⟨d, read, value.trans ?_⟩
    have more : first :: rest ++ zeros (whole - rest.length) ++ ['0']
        = first :: rest ++ zeros (whole - rest.length + 1) := by
      rw [List.append_assoc, zeros, zeros, List.replicate_succ']
    rw [more, digitsValue_append_zeros, decimalValue_mul_pow]
    congr 1
    rw [List.length_singleton]
    omega
  · have among : rest.length - whole ≠ 0 := by omega
    have left : (rest.drop whole).isEmpty = false := by
      apply List.isEmpty_eq_false_iff.2
      intro none
      rw [← List.length_drop, none] at among
      exact among rfl
    have all : AllDigits (first :: rest.take whole) :=
      fun c member => digits c ((List.take_sublist (whole + 1) (first :: rest)).subset member)
    have all' : AllDigits (rest.drop whole) :=
      fun c member => digits c (List.mem_cons_of_mem _ ((List.drop_sublist _ _).subset member))
    obtain ⟨d, read, value⟩ := exists_readDecimal?_of_point all all' nofun readExponent?_nil
    rw [List.append_nil] at read
    rw [show whole - rest.length = 0 by omega, left, if_neg Bool.false_ne_true]
    refine ⟨d, by simpa [zeros] using read, value.trans ?_⟩
    rw [List.cons_append, List.take_append_drop]
    congr 1
    rw [List.length_drop]
    omega

/-- Digits with an exponent are read. -/
theorem exists_readDecimal?_of_exponential {layout : Layout} (plus : layout.plus = "+")
    (exponent : Int) :
    ∃ d, readDecimal? (first :: (if rest.isEmpty then [] else '.' :: rest)
        ++ 'e' :: (if exponent < 0 then "-" else layout.plus).toList
        ++ (toString exponent.natAbs).toList) = some d
      ∧ d.value = decimalValue (digitsValue (first :: rest)) (exponent - rest.length) := by
  obtain ⟨digit, digits'⟩ := List.forall_mem_cons.1 digits
  have one : AllDigits [first] := List.forall_mem_singleton.2 digit
  have read := readExponent?_of_layout plus exponent
  cases rest with
  | nil =>
    obtain ⟨d, found, value⟩ := exists_readDecimal?_of_digits one nofun read
    refine ⟨d, by simpa using found, ?_⟩
    rw [value, List.length_nil, Nat.cast_zero, Int.sub_zero]
  | cons second rest =>
    obtain ⟨d, found, value⟩ := exists_readDecimal?_of_point one digits' nofun read
    exact ⟨d, by simpa using found, value⟩

/-- The digits that a layout sets are read to their value, wherever the point stands. -/
theorem exists_readDecimal?_place {layout : Layout} (plus : layout.plus = "+") (exponent : Int) :
    ∃ d, readDecimal? (layout.place first rest exponent) = some d
      ∧ d.value = decimalValue (digitsValue (first :: rest)) (exponent - rest.length) := by
  rw [place]
  split
  · split
    · next small => exact exists_readDecimal?_of_small digits small
    · next large =>
      have whole : ((exponent.toNat : Nat) : Int) = exponent := Int.toNat_of_nonneg (by omega)
      have read := exists_readDecimal?_of_plain digits exponent.toNat
      rwa [whole] at read
  · exact exists_readDecimal?_of_exponential digits plus exponent

end Place

/-! ## Digits that count -/

/-- A row is what is kept without the zeros at its end, and as many zeros as are missing. -/
theorem eq_append_zeros (cs : List Char) :
    cs = (cs.reverse.dropWhile (· = '0')).reverse
      ++ zeros (cs.length - (cs.reverse.dropWhile (· = '0')).reverse.length) := by
  have parts : (cs.reverse.dropWhile (· = '0')).reverse
      ++ (cs.reverse.takeWhile (· = '0')).reverse = cs := by
    rw [← List.reverse_append, List.takeWhile_append_dropWhile, List.reverse_reverse]
  have last : (cs.reverse.takeWhile (· = '0')).reverse
      = zeros (cs.reverse.takeWhile (· = '0')).reverse.length := by
    apply List.eq_replicate_of_mem
    intro c member
    have front : c ∈ cs.reverse.takeWhile (· = '0') := List.mem_reverse.1 member
    exact of_decide_eq_true (List.mem_takeWhile_imp (p := (· = '0')) front)
  have count := congrArg List.length parts
  rw [List.length_append] at count
  rw [← count, Nat.add_sub_cancel_left, ← last, parts]

/-- The digits that are kept of a number, with the zeros behind them that are not. -/
theorem significantDigits_spec (n : Nat) :
    AllDigits (significantDigits n).1
      ∧ digitsValue (significantDigits n).1 * 10 ^ (significantDigits n).2 = n := by
  have text : (toString n).toList = Nat.toDigits 10 n := Nat.toList_repr
  have parts : Nat.toDigits 10 n = (significantDigits n).1 ++ zeros (significantDigits n).2 := by
    rw [significantDigits, text]
    exact eq_append_zeros (Nat.toDigits 10 n)
  constructor
  · intro c member
    apply (isDigits_toDigits n).2
    rw [parts]
    exact List.mem_append_left _ member
  · rw [← digitsValue_append_zeros, ← parts, digitsValue_toDigits]

/-! ## Texts -/

/-- Everything that a layout sets begins with a digit. -/
theorem exists_digit_place (layout : Layout) {first : Char} (rest : List Char)
    (digit : first.isDigit = true) (exponent : Int) :
    ∃ c cs, layout.place first rest exponent = c :: cs ∧ c.isDigit = true := by
  rw [place]
  split
  · split
    · exact ⟨'0', _, rfl, rfl⟩
    · exact ⟨first, _, rfl, digit⟩
  · exact ⟨first, _, rfl, digit⟩

/-- The text of a number is a minus, if its sign bit is set, and a numeral that begins with a digit
and is read to its shortest decimal. -/
theorem exists_numeral {layout : Layout} (plus : layout.plus = "+") (x : Binary32) :
    ∃ c cs d, (layout.finite x).toList = (if x.isNegative then ['-'] else []) ++ c :: cs
      ∧ c.isDigit = true ∧ readDecimal? (c :: cs) = some d
      ∧ d.value = decimalValue (x.shortest layout.tie).1 (x.shortest layout.tie).2 := by
  obtain ⟨digits, value⟩ := significantDigits_spec (x.shortest layout.tie).1
  rw [finite]
  simp only []
  generalize significantDigits (x.shortest layout.tie).1 = significant at digits value
  obtain ⟨kept, dropped⟩ := significant
  cases kept with
  | nil =>
    -- Nothing is left of the digits of zero.
    have zero : AllDigits ['0'] := allDigits_zeros 1
    obtain ⟨d, read, value'⟩ := exists_readDecimal?_of_point zero zero nofun readExponent?_nil
    refine ⟨'0', ['.', '0'], d, String.toList_ofList, rfl, read, ?_⟩
    rw [value', ← value]
    simp [decimalValue, digitsValue]
  | cons first rest =>
    have digit := digits first List.mem_cons_self
    obtain ⟨c, cs, whole, digit'⟩ := exists_digit_place layout rest digit
      (rest.length + dropped + (x.shortest layout.tie).2)
    obtain ⟨d, read, value'⟩ := exists_readDecimal?_place digits plus
      (rest.length + dropped + (x.shortest layout.tie).2)
    refine ⟨c, cs, d, ?_, digit', whole ▸ read, ?_⟩
    · rw [String.toList_ofList, ← whole]
    · rw [value', ← value, decimalValue_mul_pow]
      congr 1
      omega

/-- The sign of a number is split off its text. -/
theorem splitSign_finite {layout : Layout} (plus : layout.plus = "+") (x : Binary32) :
    (splitSign (layout.finite x).toList).1 = x.isNegative
      ∧ ∃ d, readDecimal? (splitSign (layout.finite x).toList).2 = some d
        ∧ d.value = decimalValue (x.shortest layout.tie).1 (x.shortest layout.tie).2 := by
  obtain ⟨c, cs, d, text, digit, read, value⟩ := exists_numeral plus x
  have split : splitSign (layout.finite x).toList = (x.isNegative, c :: cs) := by
    rw [text]
    cases x.isNegative with
    | true => rfl
    | false =>
      change splitSign (c :: cs) = _
      unfold splitSign
      split
      · next minus =>
        obtain ⟨rfl, -⟩ := List.cons.inj minus
        cases digit
      · next minus =>
        obtain ⟨rfl, -⟩ := List.cons.inj minus
        cases digit
      · rfl
  rw [split]
  exact ⟨rfl, d, read, value⟩

/-- **The text of a number determines it**, with every bit. -/
theorem finite_inj {layout : Layout} (plus : layout.plus = "+") {x y : Binary32}
    (same : layout.finite x = layout.finite y) : x = y := by
  obtain ⟨sign, d, read, value⟩ := splitSign_finite plus x
  obtain ⟨sign', d', read', value'⟩ := splitSign_finite plus y
  rw [same] at sign read
  have signs : x.isNegative = y.isNegative := sign.symm.trans sign'
  obtain rfl : d = d' := Option.some.inj (read.symm.trans read')
  have magnitudes : x.magnitude = y.magnitude := by
    apply Binary32.magnitude_eq_of_admits (x.admits_shortest layout.tie)
    rw [← value, value']
    exact y.admits_shortest layout.tie
  exact Binary32.ext_magnitude signs magnitudes

/-! ## Characters -/

/-- Whether a character is one that numbers are written with. -/
def isNumberChar (c : Char) : Bool := c.isDigit || c = '-' || c = '+' || c = '.' || c = 'e'

/-- Numbers are written with digits. -/
theorem isNumberChar_of_allDigits {cs : List Char} (digits : AllDigits cs) :
    ∀ c ∈ cs, isNumberChar c = true := by
  intro c member
  rw [isNumberChar, digits c member]
  rfl

/-- The characters of the digits that a layout sets. A point or an exponent is among them. -/
theorem place_chars {layout : Layout} (plus : layout.plus = "+") {first : Char} {rest : List Char}
    (digits : AllDigits (first :: rest)) (exponent : Int) :
    (∀ c ∈ layout.place first rest exponent, isNumberChar c = true)
      ∧ ('.' ∈ layout.place first rest exponent ∨ 'e' ∈ layout.place first rest exponent) := by
  have all := isNumberChar_of_allDigits digits
  obtain ⟨digit, others⟩ := List.forall_mem_cons.1 all
  have fill : ∀ n, ∀ c ∈ zeros n, isNumberChar c = true :=
    fun n => isNumberChar_of_allDigits (allDigits_zeros n)
  rw [place]
  split
  · split
    · refine ⟨?_, Or.inl (by simp)⟩
      refine List.forall_mem_cons.2 ⟨rfl, List.forall_mem_cons.2 ⟨rfl, ?_⟩⟩
      exact List.forall_mem_append.2 ⟨fill _, all⟩
    · refine ⟨?_, Or.inl (by simp)⟩
      simp only [List.cons_append, List.append_assoc]
      refine List.forall_mem_cons.2 ⟨digit, List.forall_mem_append.2 ⟨?_, ?_⟩⟩
      · exact fun c member => others c (List.mem_of_mem_take member)
      · refine List.forall_mem_append.2 ⟨fill _, List.forall_mem_cons.2 ⟨rfl, ?_⟩⟩
        split
        · exact List.forall_mem_singleton.2 rfl
        · exact fun c member => others c (List.mem_of_mem_drop member)
  · refine ⟨?_, Or.inr (by simp)⟩
    have sign : ∀ c ∈ (if exponent < 0 then "-" else layout.plus).toList,
        isNumberChar c = true := by
      rw [plus]
      split
      · exact List.forall_mem_singleton.2 rfl
      · exact List.forall_mem_singleton.2 rfl
    have power : ∀ c ∈ (toString exponent.natAbs).toList, isNumberChar c = true :=
      isNumberChar_of_allDigits (Nat.toList_repr ▸ (isDigits_toDigits exponent.natAbs).2)
    simp only [List.cons_append, List.append_assoc]
    refine List.forall_mem_cons.2 ⟨digit, List.forall_mem_append.2 ⟨?_, ?_⟩⟩
    · split
      · exact List.forall_mem_nil _
      · exact List.forall_mem_cons.2 ⟨rfl, others⟩
    · exact List.forall_mem_cons.2 ⟨rfl, List.forall_mem_append.2 ⟨sign, power⟩⟩

/-- The characters of the text of a number. There is a point or an exponent, as in no integer. -/
theorem finite_chars {layout : Layout} (plus : layout.plus = "+") (x : Binary32) :
    (∀ c ∈ (layout.finite x).toList, isNumberChar c = true)
      ∧ ('.' ∈ (layout.finite x).toList ∨ 'e' ∈ (layout.finite x).toList) := by
  obtain ⟨digits, -⟩ := significantDigits_spec (x.shortest layout.tie).1
  have sign : ∀ c ∈ if x.isNegative then ['-'] else [], isNumberChar c = true := by
    split
    · exact List.forall_mem_singleton.2 rfl
    · exact List.forall_mem_nil _
  rw [finite]
  simp only []
  generalize significantDigits (x.shortest layout.tie).1 = significant at digits
  obtain ⟨kept, dropped⟩ := significant
  cases kept with
  | nil =>
    simp only [String.toList_ofList]
    refine ⟨List.forall_mem_append.2 ⟨sign, ?_⟩, Or.inl ?_⟩
    · exact List.forall_mem_cons.2
        ⟨rfl, List.forall_mem_cons.2 ⟨rfl, List.forall_mem_singleton.2 rfl⟩⟩
    · exact List.mem_append_right _ (List.mem_cons_of_mem _ List.mem_cons_self)
  | cons first rest =>
    obtain ⟨all, point⟩ := place_chars plus digits
      (rest.length + dropped + (x.shortest layout.tie).2)
    simp only [String.toList_ofList]
    exact ⟨List.forall_mem_append.2 ⟨sign, all⟩,
      point.imp (List.mem_append_right _) (List.mem_append_right _)⟩

end Layout

end PetriQuery.Numeral
