import PetriQuery.Proofs.Grammar.Children

/-!
# What is read as an expression

An element is read as an expression iff it denotes the expression with no more levels than are left
(`toExpr_eq_ok_iff`). The induction is on the levels that are left; each way of reading has one
equivalence that says when it succeeds and with what.
-/

set_option autoImplicit false

namespace PetriQuery.Grammar

open Document (Element)
open Query (Expr)
open Traced (result_bind_eq_ok_iff result_pure result_mapM_eq_ok_iff)

/-- A derivation uses at least one level. -/
theorem DenotesExpr.pos {e : Element} {k : Nat} {x : Expr} (h : DenotesExpr e k x) : 1 ≤ k := by
  cases h <;> exact Nat.succ_pos _

/-- A constant is read from the texts that write an integer of its range. -/
theorem constant_eq_ok_iff {e : Element} {x : Expr} :
    (constant e).result = .ok x
      ↔ ∃ value : Int32, Numeral.WritesInteger e.text value.toInt ∧ x = .literal value := by
  have characters : (Text.trim e.text).toList = Text.trimmed e.text.toList := String.toList_ofList
  simp only [constant, characters, Numeral.writesInteger_iff, eq_comm (b := Int32.toInt _),
    ← Numeral.readInt32_eq_ok_iff]
  cases Numeral.readInt32 (Text.trimmed e.text.toList) with
  | ok value => simp [eq_comm]
  | error fault => simp

/-- A constant is refused, with its trimmed text, for everything but a numeral of its range. -/
theorem constant_eq_error_iff {e : Element} {fault : Fault} :
    (constant e).result = .error fault
      ↔ ¬ Numeral.IsInt32 (Text.trimmed e.text.toList)
        ∧ fault = .invalidInteger (Text.trim e.text) := by
  have characters : (Text.trim e.text).toList = Text.trimmed e.text.toList := String.toList_ofList
  simp only [constant, characters, ← Numeral.exists_readInt32_iff]
  cases Numeral.readInt32 (Text.trimmed e.text.toList) with
  | ok value => simp
  | error reason => simp [eq_comm]

/-- The token count of a place is read from its name, if that is not empty. -/
theorem tokensOf_eq_ok_iff {message : String} {e : Element} {x : Expr} :
    (tokensOf message e).result = .ok x ↔ e.placeName ≠ "" ∧ x = .place e.placeName := by
  rw [tokensOf]
  split
  · next empty => simp [empty]
  · next notEmpty => simp [notEmpty, eq_comm]

/-- An element with the tag of places names the place in its text. -/
theorem namesPlace_iff {e : Element} {name : String} (place : e.tag = .place) :
    NamesPlace e name ↔ e.placeName ≠ "" ∧ e.placeName = name := by
  have text : e.placeName = Text.strip e.text := by rw [Element.placeName, if_pos place]
  rw [NamesPlace, text, ← Text.strip_eq_iff]
  constructor
  · rintro ⟨-, rfl, notEmpty⟩
    exact ⟨notEmpty, rfl⟩
  · rintro ⟨notEmpty, rfl⟩
    exact ⟨place, rfl, notEmpty⟩

/-- The name of a place is what is left of its text without blanks. -/
theorem NamesPlace.strip_eq {e : Element} {name : String} (h : NamesPlace e name) :
    Text.strip e.text = name :=
  Text.strip_eq_iff.2 h.2.1

/-- What is counted in a `tokens-count` is a place with a name. -/
theorem countedPlace_eq_ok_iff {e : Element} {x : Expr} :
    (countedPlace e).result = .ok x ↔ ∃ name, NamesPlace e name ∧ x = .place name := by
  rw [countedPlace]
  split
  · next place =>
    rw [tokensOf_eq_ok_iff]
    simp only [namesPlace_iff place]
    constructor
    · rintro ⟨notEmpty, rfl⟩
      exact ⟨_, ⟨notEmpty, rfl⟩, rfl⟩
    · rintro ⟨name, ⟨notEmpty, rfl⟩, rfl⟩
      exact ⟨notEmpty, rfl⟩
  · next other =>
    simp only [result_unexpected, reduceCtorEq, false_iff]
    rintro ⟨name, ⟨place, -⟩, -⟩
    exact other place

/-- The places in a `tokens-count` are read one by one. -/
theorem mapM_countedPlace_eq_ok_iff {es : List Element} {xs : List Expr} :
    (es.mapM countedPlace).result = .ok xs
      ↔ ∃ names, List.Forall₂ NamesPlace es names ∧ xs = names.map Expr.place := by
  rw [result_mapM_eq_ok_iff]
  simp only [countedPlace_eq_ok_iff]
  constructor
  · intro h
    induction h with
    | nil => exact ⟨[], .nil, rfl⟩
    | cons head _ ih =>
      obtain ⟨name, named, rfl⟩ := head
      obtain ⟨names, rest, rfl⟩ := ih
      exact ⟨name :: names, .cons named rest, rfl⟩
  · rintro ⟨names, h, rfl⟩
    induction h with
    | nil => exact .nil
    | cons named _ ih => exact .cons ⟨_, named, rfl⟩ ih

/-- A `tokens-count` gives the sum of its places, of which there is at least one. -/
theorem tokensCount_eq_ok_iff {e : Element} {x : Expr} :
    (tokensCount e).result = .ok x
      ↔ 1 ≤ e.children.length
        ∧ ∃ names, List.Forall₂ NamesPlace e.children names
          ∧ x = sumOfPlaces (names.map Expr.place) := by
  simp only [tokensCount, result_bind_eq_ok_iff, someChildren_eq_ok_iff,
    mapM_countedPlace_eq_ok_iff, result_pure, Except.ok.injEq]
  constructor
  · rintro ⟨-, ⟨enough, rfl⟩, -, ⟨names, places, rfl⟩, rfl⟩
    exact ⟨enough, names, places, rfl⟩
  · rintro ⟨enough, names, places, rfl⟩
    exact ⟨_, ⟨enough, rfl⟩, _, ⟨names, places, rfl⟩, rfl⟩

/-- Operands are read one by one and then put together. -/
theorem someChildren_mapM_eq_ok_iff {count : Nat} {e : Element} {read : Reader Expr}
    {build : List Expr → Expr} {x : Expr} :
    (someChildren count e >>= fun es => es.mapM read >>= fun xs => pure (build xs)).result = .ok x
      ↔ count ≤ e.children.length
        ∧ ∃ xs, (e.children.mapM read).result = .ok xs ∧ build xs = x := by
  simp only [result_bind_eq_ok_iff, someChildren_eq_ok_iff, result_pure, Except.ok.injEq]
  constructor
  · rintro ⟨-, ⟨enough, rfl⟩, h⟩
    exact ⟨enough, h⟩
  · rintro ⟨enough, h⟩
    exact ⟨_, ⟨enough, rfl⟩, h⟩

/-- Several operands are not put together as a single one is. -/
theorem sumOfPlaces_of_two {xs : List Expr} (two : 2 ≤ xs.length) :
    sumOfPlaces xs = .chain .sum xs := by
  match xs, two with
  | _ :: _ :: _, _ => rfl

/-- Several operands are not put together as a single one is. -/
theorem differenceOf_of_two {xs : List Expr} (two : 2 ≤ xs.length) :
    differenceOf xs = .chain .difference xs := by
  match xs, two with
  | _ :: _ :: _, _ => rfl

/-- The counted places of a `tokens-count` are a place or a sum of several. -/
theorem denotesExpr_tokensCount {text attributes} {es : List Element} {names : List String}
    (enough : 1 ≤ es.length) (places : List.Forall₂ NamesPlace es names) :
    DenotesExpr (.mk .tokensCount text attributes es) 1 (sumOfPlaces (names.map Expr.place)) := by
  -- One place alone is counted by itself; two or more are added up.
  cases places with
  | nil => simp at enough
  | @cons _ _ others rest named places =>
    cases places with
    | nil => exact .onePlace named
    | cons next places => exact .places (by simp) (.cons named (.cons next places))

/-- The operands of an `integer-difference` are subtracted, a single one from nothing. -/
theorem denotesExpr_difference {text attributes} {es : List Element} {k : Nat} {xs : List Expr}
    (enough : 1 ≤ es.length) (operands : Each DenotesExpr es k xs) :
    DenotesExpr (.mk .integerDifference text attributes es) (k + 1) (differenceOf xs) := by
  cases operands with
  | nil => simp at enough
  | cons first others =>
    cases others with
    | nil =>
      rw [Nat.max_zero]
      exact .opposite first
    | cons second others => exact .difference (by simp) (.cons first (.cons second others))

/-- What is read as an expression has a derivation with the levels that were left. -/
theorem denotesExpr_of_toExpr {limit left : Nat} {e : Element} {x : Expr}
    (accepts : ∀ e x, (toExpr limit left e).result = .ok x ↔ ∃ k ≤ left, DenotesExpr e k x)
    (h : (toExpr limit (left + 1) e).result = .ok x) : ∃ k ≤ left + 1, DenotesExpr e k x := by
  obtain ⟨tag, text, attributes, es⟩ := e
  cases tag with
  | integerConstant =>
    rw [toExpr] at h
    obtain ⟨value, writes, rfl⟩ := constant_eq_ok_iff.1 h
    exact ⟨1, Nat.le_add_left 1 left, .constant writes⟩
  | tokensCount =>
    obtain ⟨enough, names, places, rfl⟩ := tokensCount_eq_ok_iff.1 h
    exact ⟨1, Nat.le_add_left 1 left, denotesExpr_tokensCount enough places⟩
  | place =>
    obtain ⟨notEmpty, rfl⟩ := tokensOf_eq_ok_iff.1 h
    exact ⟨1, Nat.le_add_left 1 left, .place ((namesPlace_iff rfl).2 ⟨notEmpty, rfl⟩)⟩
  | integerSum =>
    obtain ⟨enough, xs, read, rfl⟩ := someChildren_mapM_eq_ok_iff.1 h
    obtain ⟨k, le, operands⟩ := (mapM_eq_ok_iff_each accepts).1 read
    exact ⟨k + 1, Nat.succ_le_succ le, .sum enough operands⟩
  | integerProduct =>
    obtain ⟨enough, xs, read, rfl⟩ := someChildren_mapM_eq_ok_iff.1 h
    obtain ⟨k, le, operands⟩ := (mapM_eq_ok_iff_each accepts).1 read
    exact ⟨k + 1, Nat.succ_le_succ le, .product enough operands⟩
  | integerDifference =>
    obtain ⟨enough, xs, read, rfl⟩ := someChildren_mapM_eq_ok_iff.1 h
    obtain ⟨k, le, operands⟩ := (mapM_eq_ok_iff_each accepts).1 read
    exact ⟨k + 1, Nat.succ_le_succ le, denotesExpr_difference enough operands⟩
  | _ => cases h

/-- What has a derivation with the levels that are left is read as the expression. -/
theorem toExpr_of_denotesExpr {limit left k : Nat} {e : Element} {x : Expr}
    (accepts : ∀ e x, (toExpr limit left e).result = .ok x ↔ ∃ k ≤ left, DenotesExpr e k x)
    (le : k ≤ left + 1) (h : DenotesExpr e k x) : (toExpr limit (left + 1) e).result = .ok x := by
  cases h with
  | constant writes =>
    rw [toExpr]
    exact constant_eq_ok_iff.2 ⟨_, writes, rfl⟩
  | place named =>
    obtain ⟨tag, text, attributes, es⟩ := e
    obtain rfl : tag = .place := named.1
    obtain ⟨notEmpty, rfl⟩ := (namesPlace_iff rfl).1 named
    exact tokensOf_eq_ok_iff.2 ⟨notEmpty, rfl⟩
  | onePlace named => exact tokensCount_eq_ok_iff.2 ⟨Nat.le_refl 1, [_], .cons named .nil, rfl⟩
  | @places _ _ es names two places =>
    refine tokensCount_eq_ok_iff.2 ⟨Nat.le_of_succ_le two, names, places, ?_⟩
    rw [sumOfPlaces_of_two (by rw [List.length_map, ← places.length_eq]; exact two)]
  | sum two operands =>
    have read := (mapM_eq_ok_iff_each accepts).2 ⟨_, Nat.le_of_succ_le_succ le, operands⟩
    exact someChildren_mapM_eq_ok_iff.2 ⟨two, _, read, rfl⟩
  | product two operands =>
    have read := (mapM_eq_ok_iff_each accepts).2 ⟨_, Nat.le_of_succ_le_succ le, operands⟩
    exact someChildren_mapM_eq_ok_iff.2 ⟨two, _, read, rfl⟩
  | opposite operand =>
    -- The only operand is read as a list of one, which nests as deep as it does.
    have single : Each DenotesExpr [_] _ [_] := .cons operand .nil
    rw [Nat.max_zero] at single
    have read := (mapM_eq_ok_iff_each accepts).2 ⟨_, Nat.le_of_succ_le_succ le, single⟩
    exact someChildren_mapM_eq_ok_iff.2 ⟨Nat.le_refl 1, _, read, rfl⟩
  | difference two operands =>
    have read := (mapM_eq_ok_iff_each accepts).2 ⟨_, Nat.le_of_succ_le_succ le, operands⟩
    refine someChildren_mapM_eq_ok_iff.2 ⟨Nat.le_of_succ_le two, _, read, ?_⟩
    exact differenceOf_of_two (operands.length_eq ▸ two)

/-- **An element is read as an expression iff it denotes the expression with no more levels than are
left.** -/
theorem toExpr_eq_ok_iff {limit left : Nat} {e : Element} {x : Expr} :
    (toExpr limit left e).result = .ok x ↔ ∃ k ≤ left, DenotesExpr e k x := by
  induction left generalizing e x with
  | zero =>
    constructor
    · intro h
      cases h
    · rintro ⟨k, le, h⟩
      exact absurd (Nat.le_trans h.pos le) (Nat.not_succ_le_zero 0)
  | succ left ih =>
    have accepts := fun e x => @ih e x
    constructor
    · exact denotesExpr_of_toExpr accepts
    · rintro ⟨k, le, h⟩
      exact toExpr_of_denotesExpr accepts le h

end PetriQuery.Grammar
