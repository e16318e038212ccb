import PetriQuery.Proofs.Grammar.Settings
import Mathlib.Algebra.Group.Int.Defs

/-!
# Integers in a document

Which texts are read as integers, by the constants of expressions and by the bounds of settings
alike. `Numeral.WritesInteger` says it without a reader and without a bound. An integer of 32 bits
is read from exactly the texts that write it, however many digits they have, and a text that writes
no integer of 32 bits is refused.

Main result: `integers_are_read_exactly`.
-/

set_option autoImplicit false

namespace PetriQuery

namespace Numeral

/-- The text writes an integer of 32 bits. -/
def WritesInt32 (s : String) : Prop := ∃ n, WritesInteger s n ∧ -2 ^ 31 ≤ n ∧ n ≤ 2 ^ 31 - 1

/-- A text writes an integer of 32 bits iff what is left without the blanks is a numeral of one. -/
theorem writesInt32_iff {s : String} : WritesInt32 s ↔ IsInt32 (Text.trimmed s.toList) := by
  simp only [WritesInt32, writesInteger_iff, IsInt32]
  constructor
  · rintro ⟨n, ⟨numeral, rfl⟩, above, below⟩
    exact ⟨numeral, by omega, by omega⟩
  · rintro ⟨numeral, above, below⟩
    exact ⟨_, ⟨numeral, rfl⟩, by omega, by omega⟩

end Numeral

namespace Grammar

open Document (Attributes Element)
open Numeral (WritesInteger WritesInt32 writesInteger_iff writesInt32_iff)
open Query (Expr Sampling)

/-- A constant is read from exactly the texts that write it. -/
theorem toExpr_integerConstant_eq_ok_iff {limit left : Nat} {e : Element} {v : Int32}
    (tag : e.tag = .integerConstant) :
    (toExpr limit (left + 1) e).result = .ok (.literal v) ↔ WritesInteger e.text v.toInt := by
  simp only [toExpr, tag, constant_eq_ok_iff, Expr.literal.injEq, exists_eq_right']

/-- A constant is refused for exactly the texts that write no integer of 32 bits. -/
theorem toExpr_integerConstant_eq_error_iff {limit left : Nat} {e : Element} {fault : Fault}
    (tag : e.tag = .integerConstant) :
    (toExpr limit (left + 1) e).result = .error fault
      ↔ ¬ WritesInt32 e.text ∧ fault = .invalidInteger (Text.trim e.text) := by
  simp only [toExpr, tag, constant_eq_error_iff, writesInt32_iff]

/-- The field of a bound has the integer that the text of its attribute writes. -/
theorem BoundIs.writesInteger {e : Element} {key value : String} {default field : Int32}
    (has : e.get? key = some value) (h : BoundIs e key default field) :
    WritesInteger value field.toInt := by
  rw [BoundIs, FieldIs, has] at h
  exact writesInteger_iff.2 ⟨h.1, h.2.symm⟩

/-- **Integers are read exactly.** A constant with a text is read as an integer of 32 bits iff the
text writes this integer, and it is refused, with its text without the blanks at its ends, iff the
text writes no integer of 32 bits. So the text of each constant is read back, whatever blanks are
around it. The attributes of the two bounds of a statistical query are read from the same texts as
the same integers, and where the settings are read, these integers are the bounds. -/
theorem integers_are_read_exactly (limit left : Nat) (attributes : Attributes)
    (children : List Element) (s : String) :
    (∀ v : Int32,
        (toExpr limit (left + 1) (.mk .integerConstant s attributes children)).result
            = .ok (.literal v)
          ↔ WritesInteger s v.toInt)
      ∧ (∀ fault,
        (toExpr limit (left + 1) (.mk .integerConstant s attributes children)).result
            = .error fault
          ↔ ¬ WritesInt32 s ∧ fault = .invalidInteger (Text.trim s))
      ∧ (∀ (v : Int32) (before after : String), Text.isAllBlank before = true →
        Text.isAllBlank after = true →
        (toExpr limit (left + 1) (.mk .integerConstant
            (before ++ (Expr.literal v).render ++ after) attributes children)).result
          = .ok (.literal v))
      ∧ ∀ (smc : Element) (key : String) (bound : Sampling → Int32),
        (key, bound) ∈ [("time-bound", Sampling.timeBound), ("step-bound", Sampling.stepBound)] →
        smc.get? key = some s →
        (∀ v : Int32, (readBound smc key).result = .ok (some v) ↔ WritesInteger s v.toInt)
          ∧ (∀ fault, (readBound smc key).result = .error fault
            ↔ ¬ WritesInt32 s ∧ fault = .invalidAttribute key s)
          ∧ (∀ made, (settings smc).result = .ok made → WritesInteger s (bound made).toInt)
          ∧ (¬ WritesInt32 s → ∃ fault, (settings smc).result = .error fault) := by
  refine ⟨?_, ?_, ?_, ?_⟩
  · exact fun v => toExpr_integerConstant_eq_ok_iff rfl
  · exact fun fault => toExpr_integerConstant_eq_error_iff rfl
  · intro v before after blank blank'
    refine (toExpr_integerConstant_eq_ok_iff rfl).2 ?_
    have text : (Expr.literal v).render = toString v.toInt := String.ofList_toList
    rw [Element.text, text]
    exact Numeral.writesInteger_padded blank blank' v.toInt
  · intro smc key bound isBound has
    have known : key ∈ ["time-bound", "step-bound"] :=
      List.mem_map_of_mem (f := Prod.fst) isBound
    refine ⟨?_, ?_, ?_, ?_⟩
    · intro v
      simp only [readBound_eq_ok_iff, has, Option.some.injEq, exists_eq_left', writesInteger_iff]
      rw [eq_comm (a := v.toInt)]
    · intro fault
      simp only [readBound_eq_error_iff, has, Option.some.injEq, exists_eq_left', writesInt32_iff]
    · intro made read
      have makes := settings_eq_ok_iff.1 read
      simp only [List.mem_cons, Prod.mk.injEq, List.not_mem_nil, or_false] at isBound
      rcases isBound with ⟨rfl, rfl⟩ | ⟨rfl, rfl⟩
      · exact makes.timeBound.writesInteger has
      · exact makes.stepBound.writesInteger has
    · intro other
      refine exists_error_of_settings_iff.2 ⟨key, s, has, (isBadSetting_of_bound known).2 ?_⟩
      rwa [← writesInt32_iff]

theorem integers_are_read_exactly_of_minimum :
    Text.isAllBlank "\u3000\n" = true
      ∧ Text.isAllBlank "\u00a0" = true
      ∧ (toExpr 1 1 (.mk .integerConstant
          ("\u3000\n" ++ (Expr.literal (-2147483648)).render ++ "\u00a0") .empty [])).result
        = .ok (.literal (-2147483648))
      ∧ (toExpr 1 1 (.mk .integerConstant " 2147483648" .empty [])).result
        = .error (.invalidInteger "2147483648")
      ∧ ¬ WritesInt32 " 2147483648"
      ∧ (settings (smcOf [("step-bound", "\t-0002147483648 ")])).result
        = .ok { stepBound := -2147483648 }
      ∧ WritesInteger "\t-0002147483648 " (-2147483648) := by
  have front : Text.isAllBlank "\u3000\n" = true := by decide
  have back : Text.isAllBlank "\u00a0" = true := by decide
  have refused : (toExpr 1 1 (.mk .integerConstant " 2147483648" .empty [])).result
      = .error (.invalidInteger "2147483648") := by
    rfl
  have read : (settings (smcOf [("step-bound", "\t-0002147483648 ")])).result
      = .ok { stepBound := -2147483648 } := by
    rfl
  obtain ⟨-, -, padded, -⟩ := integers_are_read_exactly 1 0 .empty [] ""
  obtain ⟨-, other, -, -⟩ := integers_are_read_exactly 1 0 .empty [] " 2147483648"
  obtain ⟨-, -, -, bounds⟩ := integers_are_read_exactly 1 0 .empty [] "\t-0002147483648 "
  obtain ⟨-, -, writes, -⟩ :=
    bounds (smcOf [("step-bound", "\t-0002147483648 ")]) "step-bound" Sampling.stepBound
      (List.mem_cons_of_mem _ (List.mem_singleton_self _)) (by rfl)
  exact ⟨front, back, padded (-2147483648) _ _ front back, refused, ((other _).1 refused).1, read,
    writes _ read⟩

end Grammar

end PetriQuery
