/-!
# ChunkSizing.Text.Utf8 — text as bytes.

Text travels as UTF-8. Writing takes each character's bytes; reading takes one character at a time
from the front, accepts only its shortest form and only scalar values, and on the first byte
sequence that is no character reports how many bytes before it were good.
-/

namespace ChunkSizing.Utf8

/-- The bytes of a text. -/
def encode (text : List Char) : List UInt8 := text.flatMap String.utf8EncodeChar

/-- The bytes of a string. -/
def ofString (text : String) : List UInt8 := encode text.toList

/-! ## One character -/

/-- A byte that continues a character. -/
def isTail (b : UInt8) : Bool := b.toNat / 64 == 2

/-- The character of a code point that needs at least the code point `least`. -/
def scalar? (least n : Nat) : Option Char :=
  if least ≤ n ∧ n.isValidChar then some (Char.ofNat n) else none

/-- A character of one byte. -/
def one? (a : UInt8) : Option Char :=
  if a.toNat < 0x80 then some (Char.ofNat a.toNat) else none

/-- A character of two bytes. -/
def two? (a b : UInt8) : Option Char :=
  if a.toNat / 32 = 6 ∧ isTail b then scalar? 0x80 (a.toNat % 32 * 64 + b.toNat % 64) else none

/-- A character of three bytes. -/
def three? (a b c : UInt8) : Option Char :=
  if a.toNat / 16 = 14 ∧ isTail b ∧ isTail c then
    scalar? 0x800 (a.toNat % 16 * 4096 + b.toNat % 64 * 64 + c.toNat % 64)
  else none

/-- A character of four bytes. -/
def four? (a b c d : UInt8) : Option Char :=
  if a.toNat / 8 = 30 ∧ isTail b ∧ isTail c ∧ isTail d then
    scalar? 0x10000
      (a.toNat % 8 * 262144 + b.toNat % 64 * 4096 + c.toNat % 64 * 64 + d.toNat % 64)
  else none

/-! ## A whole text -/

/-- Reads on after `good` bytes, which held the characters `read` in reverse. -/
def decodeFrom (good : Nat) (read : List Char) : List UInt8 → Except Nat (List Char)
  | [] => .ok read.reverse
  | a :: afterA =>
    match one? a with
    | some ch => decodeFrom (good + 1) (ch :: read) afterA
    | none =>
      match afterA with
      | [] => .error good
      | b :: afterB =>
        match two? a b with
        | some ch => decodeFrom (good + 2) (ch :: read) afterB
        | none =>
          match afterB with
          | [] => .error good
          | c :: afterC =>
            match three? a b c with
            | some ch => decodeFrom (good + 3) (ch :: read) afterC
            | none =>
              match afterC with
              | [] => .error good
              | d :: afterD =>
                match four? a b c d with
                | some ch => decodeFrom (good + 4) (ch :: read) afterD
                | none => .error good

/-- **Reading a text.** The error is the length of the longest good beginning. -/
def decode (bytes : List UInt8) : Except Nat (List Char) := decodeFrom 0 [] bytes

/-- The string of a byte sequence, if it is one. -/
def toString? (bytes : List UInt8) : Option String :=
  match decode bytes with
  | .ok text => some (String.ofList text)
  | .error _ => none

-- An overlong form, a surrogate and a truncated character each end the good beginning.
example : decode [0x61, 0xc0, 0x80] = .error 1 := by rfl
example : decode [0xed, 0xa0, 0x80] = .error 0 := by rfl
example : decode [0x61, 0xc3, 0xa9, 0xe2, 0x82] = .error 3 := by rfl
example : decode (encode ['a', 'é', '€', '🦀']) = .ok ['a', 'é', '€', '🦀'] := by rfl

end ChunkSizing.Utf8
