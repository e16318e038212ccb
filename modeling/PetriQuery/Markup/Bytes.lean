/-!
# Markup characters as bytes

The bytes that markup is made of, the spaces between its parts, and cutting a list of bytes at the
end of a construct.

Main facts: what `cut` returns, with the closing byte put back between the two parts, is the input
(`append_of_cut`), so that the rest is shorter than the input (`length_of_cut`).
-/

set_option autoImplicit false

namespace PetriQuery.Markup

/-- The byte `<`, which opens a construct. -/
@[match_pattern] abbrev byteLess : UInt8 := 0x3c

/-- The byte `>`, which closes a construct. -/
@[match_pattern] abbrev byteGreater : UInt8 := 0x3e

/-- The byte `!` behind a `<`, for comments, CDATA sections and document types. -/
@[match_pattern] abbrev byteBang : UInt8 := 0x21

/-- The byte `?` of declarations and instructions. -/
@[match_pattern] abbrev byteQuestion : UInt8 := 0x3f

/-- The byte `/` of end tags and empty-element tags. -/
@[match_pattern] abbrev byteSlash : UInt8 := 0x2f

/-- The byte `-` of comments. -/
@[match_pattern] abbrev byteHyphen : UInt8 := 0x2d

/-- The byte `=` between a key and its value. -/
@[match_pattern] abbrev byteEquals : UInt8 := 0x3d

/-- The byte `[` of CDATA sections. -/
@[match_pattern] abbrev byteBracket : UInt8 := 0x5b

/-- The byte `"` around a value. -/
@[match_pattern] abbrev byteQuote : UInt8 := 0x22

/-- The apostrophe, which may stand around a value too. -/
@[match_pattern] abbrev byteApostrophe : UInt8 := 0x27

/-- The bytes of an ASCII text. -/
def ascii (s : String) : List UInt8 := s.toList.map fun c => UInt8.ofNat c.toNat

/-- Whether a byte is a space of markup: space, tab, line feed or carriage return. -/
def isSpace (b : UInt8) : Bool := b = 0x20 || b = 0x09 || b = 0x0a || b = 0x0d

/-- The bytes without the spaces at their end. -/
def dropTrailingSpace (bytes : List UInt8) : List UInt8 :=
  (bytes.reverse.dropWhile isSpace).reverse

/-- A byte with ASCII letters in upper case. -/
def upper (b : UInt8) : UInt8 := if 0x61 ≤ b ∧ b ≤ 0x7a then b - 0x20 else b

/-- Cuts the input at the first `>` at which the construct closes. Whether it closes there is read
off a state, which every byte before changes by `step`. The bytes passed are in `done`, the last one
first. -/
def cutFrom {σ : Type} (step : σ → UInt8 → σ) (closes : σ → Bool) (done : List UInt8) (state : σ) :
    List UInt8 → Option (List UInt8 × List UInt8)
  | [] => none
  | b :: rest =>
    if b = byteGreater ∧ closes state then some (done.reverse, rest)
    else cutFrom step closes (b :: done) (step state b) rest

/-- The part of the input before the closing `>` and the part after it. -/
def cut {σ : Type} (step : σ → UInt8 → σ) (closes : σ → Bool) (state : σ) (input : List UInt8) :
    Option (List UInt8 × List UInt8) :=
  cutFrom step closes [] state input

/-- Cutting loses the closing byte and nothing else. -/
theorem append_of_cutFrom {σ : Type} {step : σ → UInt8 → σ} {closes : σ → Bool}
    {done : List UInt8} {state : σ} {input content rest : List UInt8}
    (h : cutFrom step closes done state input = some (content, rest)) :
    content ++ byteGreater :: rest = done.reverse ++ input := by
  induction input generalizing done state with
  | nil => cases h
  | cons b bytes ih =>
    simp only [cutFrom] at h
    split at h
    · next closing =>
      obtain ⟨rfl, rfl⟩ := Prod.mk.inj (Option.some.inj h)
      rw [closing.1]
    · have := ih h
      simpa using this

/-- The two parts with the closing byte between them are the input. -/
theorem append_of_cut {σ : Type} {step : σ → UInt8 → σ} {closes : σ → Bool} {state : σ}
    {input content rest : List UInt8} (h : cut step closes state input = some (content, rest)) :
    content ++ byteGreater :: rest = input :=
  append_of_cutFrom h

/-- The part after the closing byte is shorter than the input. -/
theorem length_of_cut {σ : Type} {step : σ → UInt8 → σ} {closes : σ → Bool} {state : σ}
    {input content rest : List UInt8} (h : cut step closes state input = some (content, rest)) :
    content.length + rest.length + 1 = input.length := by
  rw [← append_of_cut h, List.length_append, List.length_cons]
  omega

end PetriQuery.Markup
