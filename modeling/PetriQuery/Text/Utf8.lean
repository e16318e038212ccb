/-!
# UTF-8

Strict decoding of bytes as UTF-8. A character takes one to four bytes; overlong forms, surrogates
and values past U+10FFFF are refused. A refusal says how many bytes before it decode, and either how
many bytes the broken sequence has or that the input ends within a sequence.

Main facts: what `encode` writes, `decode` reads back (`decode_encode`).
-/

set_option autoImplicit false

namespace PetriQuery.Text.Utf8

/-- Why bytes are not UTF-8. `start` is the length of the part before the fault. -/
inductive Fault where
  /-- A sequence of `length` bytes (1 to 3) that no continuation makes a character. -/
  | invalid (length start : Nat)
  /-- The input ends before the sequence does. -/
  | incomplete (start : Nat)
deriving DecidableEq, Repr

/-- The wording of a fault. -/
def Fault.message : Fault → String
  | .invalid length start => s!"invalid utf-8 sequence of {length} bytes from index {start}"
  | .incomplete start => s!"incomplete utf-8 byte sequence from index {start}"

/-- Whether a byte continues a sequence. -/
def isTail (b : UInt8) : Bool := 0x80 ≤ b && b ≤ 0xbf

/-- How many bytes the sequence that a byte starts has, if it starts one. -/
def width? (b : UInt8) : Option Nat :=
  if b < 0x80 then some 1
  else if b < 0xc2 then none
  else if b < 0xe0 then some 2
  else if b < 0xf0 then some 3
  else if b < 0xf5 then some 4
  else none

/-- Whether `b` may follow the first byte `a` of a sequence of three or four bytes. The narrower
ranges keep out overlong forms, surrogates and values past U+10FFFF. -/
def mayFollow (a b : UInt8) : Bool :=
  if a = 0xe0 then 0xa0 ≤ b && b ≤ 0xbf
  else if a = 0xed then 0x80 ≤ b && b ≤ 0x9f
  else if a = 0xf0 then 0x90 ≤ b && b ≤ 0xbf
  else if a = 0xf4 then 0x80 ≤ b && b ≤ 0x8f
  else isTail b

/-- The payload of a byte that continues a sequence. -/
def tailBits (b : UInt8) : Nat := b.toNat % 64

/-- Decodes the rest of an input, of which `start` bytes have been read into `done` (last character
first). -/
def decodeFrom (start : Nat) (done : List Char) : List UInt8 → Except Fault (List Char)
  | [] => .ok done.reverse
  | a :: rest =>
    match width? a, rest with
    | some 1, rest => decodeFrom (start + 1) (Char.ofNat a.toNat :: done) rest
    | some 2, b :: rest =>
      if isTail b then
        decodeFrom (start + 2) (Char.ofNat (a.toNat % 32 * 64 + tailBits b) :: done) rest
      else .error (.invalid 1 start)
    | some 3, b :: rest =>
      if mayFollow a b then
        match rest with
        | c :: rest =>
          if isTail c then
            decodeFrom (start + 3)
              (Char.ofNat ((a.toNat % 16 * 64 + tailBits b) * 64 + tailBits c) :: done) rest
          else .error (.invalid 2 start)
        | [] => .error (.incomplete start)
      else .error (.invalid 1 start)
    | some 4, b :: rest =>
      if mayFollow a b then
        match rest with
        | c :: rest =>
          if isTail c then
            match rest with
            | d :: rest =>
              if isTail d then
                decodeFrom (start + 4)
                  (Char.ofNat (((a.toNat % 8 * 64 + tailBits b) * 64 + tailBits c) * 64
                    + tailBits d) :: done) rest
              else .error (.invalid 3 start)
            | [] => .error (.incomplete start)
          else .error (.invalid 2 start)
        | [] => .error (.incomplete start)
      else .error (.invalid 1 start)
    -- A sequence that the input ends in is told from one that another byte breaks off.
    | some _, [] => .error (.incomplete start)
    | _, _ => .error (.invalid 1 start)

/-- The text that bytes encode. -/
def decode (bytes : List UInt8) : Except Fault String :=
  (decodeFrom 0 [] bytes).map String.ofList

/-- The bytes that encode a text. -/
def encode (s : String) : List UInt8 := s.toList.flatMap String.utf8EncodeChar

/-! ## What is encoded can be decoded -/

/-- The value of a byte that was made from a number. -/
theorem toNat_byte {n : Nat} (small : n < 256) : (UInt8.ofNat n).toNat = n := by
  rw [UInt8.toNat_ofNat']
  exact Nat.mod_eq_of_lt small

/-- A byte between 0x80 and 0xbf continues a sequence. -/
theorem isTail_byte {n : Nat} (low : 128 ≤ n) (high : n < 192) :
    isTail (UInt8.ofNat n) = true := by
  have value := toNat_byte (show n < 256 by omega)
  simp only [isTail, Bool.and_eq_true, decide_eq_true_eq, UInt8.le_iff_toNat_le, value]
  exact ⟨low, by simpa using Nat.le_of_lt_succ high⟩

/-- The first byte of a sequence tells its width. -/
theorem width?_byte {n : Nat} (small : n < 256) :
    width? (UInt8.ofNat n)
      = if n < 128 then some 1 else if n < 194 then none else if n < 224 then some 2
        else if n < 240 then some 3 else if n < 245 then some 4 else none := by
  have value := toNat_byte small
  simp only [width?, UInt8.lt_iff_toNat_lt, value]
  rfl

/-- What may follow a first byte, said of numbers. -/
theorem mayFollow_byte {m n : Nat} (smallM : m < 256) (smallN : n < 256) :
    mayFollow (UInt8.ofNat m) (UInt8.ofNat n)
      = if m = 224 then decide (160 ≤ n) && decide (n ≤ 191)
        else if m = 237 then decide (128 ≤ n) && decide (n ≤ 159)
        else if m = 240 then decide (144 ≤ n) && decide (n ≤ 191)
        else if m = 244 then decide (128 ≤ n) && decide (n ≤ 143)
        else decide (128 ≤ n) && decide (n ≤ 191) := by
  have valueM := toNat_byte smallM
  have valueN := toNat_byte smallN
  simp only [mayFollow, isTail, ← UInt8.toNat_inj, UInt8.le_iff_toNat_le, valueM, valueN]
  rfl

/-- The bytes of a character are read as that character. -/
theorem decodeFrom_utf8EncodeChar (start : Nat) (done : List Char) (c : Char) (rest : List UInt8) :
    decodeFrom start done (String.utf8EncodeChar c ++ rest)
      = decodeFrom (start + c.utf8Size) (c :: done) rest := by
  have back : Char.ofNat c.val.toNat = c := Char.ofNat_toNat c
  have valid : c.val.toNat < 0xd800 ∨ 0xdfff < c.val.toNat ∧ c.val.toNat < 0x110000 := c.valid
  have size : c.utf8Size = if c.val.toNat ≤ 127 then 1 else if c.val.toNat ≤ 2047 then 2
      else if c.val.toNat ≤ 65535 then 3 else 4 := by
    simp only [Char.utf8Size, UInt32.le_iff_toNat_le]
    rfl
  unfold String.utf8EncodeChar
  -- One case for each width. In each of them the payloads make up the number again (`whole`), and
  -- in the longer ones the second byte is among those that may follow the first (`follows`).
  generalize c.val.toNat = v at *
  simp only
  split
  · next one =>
    have value := toNat_byte (show v < 256 by omega)
    rw [size, if_pos one]
    simp only [List.cons_append, List.nil_append, decodeFrom,
      width?_byte (show v < 256 by omega), if_pos (show v < 128 by omega), value, back]
  · split
    · next one two =>
      rw [size, if_neg one, if_pos two]
      have first := toNat_byte (show v / 64 % 32 + 192 < 256 by omega)
      have second := toNat_byte (show v % 64 + 128 < 256 by omega)
      have whole : (v / 64 % 32 + 192) % 32 * 64 + (v % 64 + 128) % 64 = v := by omega
      simp only [List.cons_append, List.nil_append, decodeFrom,
        width?_byte (show v / 64 % 32 + 192 < 256 by omega),
        if_neg (show ¬ v / 64 % 32 + 192 < 128 by omega),
        if_neg (show ¬ v / 64 % 32 + 192 < 194 by omega),
        if_pos (show v / 64 % 32 + 192 < 224 by omega),
        isTail_byte (show 128 ≤ v % 64 + 128 by omega) (by omega), if_true, tailBits, first, second,
        whole, back]
    · split
      · next one two three =>
        rw [size, if_neg one, if_neg two, if_pos three]
        have first := toNat_byte (show v / 4096 % 16 + 224 < 256 by omega)
        have second := toNat_byte (show v / 64 % 64 + 128 < 256 by omega)
        have third := toNat_byte (show v % 64 + 128 < 256 by omega)
        have whole : ((v / 4096 % 16 + 224) % 16 * 64 + (v / 64 % 64 + 128) % 64) * 64
            + (v % 64 + 128) % 64 = v := by
          omega
        have follows : mayFollow (UInt8.ofNat (v / 4096 % 16 + 224))
            (UInt8.ofNat (v / 64 % 64 + 128)) = true := by
          rw [mayFollow_byte (by omega) (by omega)]
          repeat' split
          all_goals
            simp only [Bool.and_eq_true, decide_eq_true_eq]
            omega
        simp only [List.cons_append, List.nil_append, decodeFrom,
          width?_byte (show v / 4096 % 16 + 224 < 256 by omega),
          if_neg (show ¬ v / 4096 % 16 + 224 < 128 by omega),
          if_neg (show ¬ v / 4096 % 16 + 224 < 194 by omega),
          if_neg (show ¬ v / 4096 % 16 + 224 < 224 by omega),
          if_pos (show v / 4096 % 16 + 224 < 240 by omega), follows,
          isTail_byte (show 128 ≤ v % 64 + 128 by omega) (by omega), if_true, tailBits, first,
          second, third, whole, back]
      · next one two three =>
        rw [size, if_neg one, if_neg two, if_neg three]
        have first := toNat_byte (show v / 262144 % 8 + 240 < 256 by omega)
        have second := toNat_byte (show v / 4096 % 64 + 128 < 256 by omega)
        have third := toNat_byte (show v / 64 % 64 + 128 < 256 by omega)
        have fourth := toNat_byte (show v % 64 + 128 < 256 by omega)
        have whole : (((v / 262144 % 8 + 240) % 8 * 64 + (v / 4096 % 64 + 128) % 64) * 64
            + (v / 64 % 64 + 128) % 64) * 64 + (v % 64 + 128) % 64 = v := by
          omega
        have follows : mayFollow (UInt8.ofNat (v / 262144 % 8 + 240))
            (UInt8.ofNat (v / 4096 % 64 + 128)) = true := by
          rw [mayFollow_byte (by omega) (by omega)]
          repeat' split
          all_goals
            simp only [Bool.and_eq_true, decide_eq_true_eq]
            omega
        simp only [List.cons_append, List.nil_append, decodeFrom,
          width?_byte (show v / 262144 % 8 + 240 < 256 by omega),
          if_neg (show ¬ v / 262144 % 8 + 240 < 128 by omega),
          if_neg (show ¬ v / 262144 % 8 + 240 < 194 by omega),
          if_neg (show ¬ v / 262144 % 8 + 240 < 224 by omega),
          if_neg (show ¬ v / 262144 % 8 + 240 < 240 by omega),
          if_pos (show v / 262144 % 8 + 240 < 245 by omega), follows,
          isTail_byte (show 128 ≤ v / 64 % 64 + 128 by omega) (by omega),
          isTail_byte (show 128 ≤ v % 64 + 128 by omega) (by omega), if_true, tailBits, first,
          second, third, fourth, whole, back]

/-- The bytes of characters are read as these characters. -/
theorem decodeFrom_flatMap (start : Nat) (done cs : List Char) :
    decodeFrom start done (cs.flatMap String.utf8EncodeChar) = .ok (done.reverse ++ cs) := by
  induction cs generalizing start done with
  | nil => simp [decodeFrom]
  | cons c cs ih =>
    rw [List.flatMap_cons, decodeFrom_utf8EncodeChar, ih]
    simp

/-- **What is encoded is decoded to the same text.** -/
theorem decode_encode (s : String) : decode (encode s) = .ok s := by
  rw [decode, encode, decodeFrom_flatMap]
  simp [Except.map, String.ofList_toList]

end PetriQuery.Text.Utf8
