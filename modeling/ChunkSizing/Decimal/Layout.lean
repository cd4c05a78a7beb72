import ChunkSizing.Decimal.Shortest

/-!
# ChunkSizing.Decimal.Layout — numbers as text.

A layout decides how the shortest digits of a number are set out: which leading exponents are
written positionally, whether a whole number carries `.0`, and which of two equally near decimals
is taken. The digits themselves are the same under every layout, ties apart.
-/

namespace ChunkSizing

/-- How the digits of a number are set out as text. -/
structure Layout where
  /-- Leading exponents written as plain digits; the others take an exponent mark. -/
  positional : Int → Bool
  /-- Whole numbers written as plain digits carry `.0`. -/
  pointZero : Bool
  tie : Tie

namespace Layout

/-- **Plain digits.** Zeros fill the places up to the decimal point on either side. -/
def plainDigits (pointZero : Bool) (d : Decimal) : List Char :=
  let digits := d.written
  let whole := digits.length + d.exponent
  if 0 ≤ d.exponent then
    digits ++ List.replicate d.exponent.toNat '0' ++ if pointZero then ['.', '0'] else []
  else if 0 < whole then digits.take whole.toNat ++ '.' :: digits.drop whole.toNat
  else '0' :: '.' :: List.replicate (-whole).toNat '0' ++ digits

/-- **An exponent mark.** One digit before the point, the point only if digits follow it, and the
sign of the exponent always. -/
def exponentDigits (d : Decimal) : List Char :=
  let mantissa := match d.written with
    | first :: second :: rest => first :: '.' :: second :: rest
    | short => short
  let sign := if d.leading < 0 then '-' else '+'
  mantissa ++ 'e' :: sign :: Nat.toDigits 10 d.leading.natAbs

/-- The text of a decimal without its sign. -/
def digits (layout : Layout) (d : Decimal) : List Char :=
  if layout.positional d.leading then plainDigits layout.pointZero d else exponentDigits d

/-- **The text of a value.** A number is its sign, if negative, and its shortest digits; the minus
of a negative zero is kept. -/
def text (layout : Layout) : Binary64 → List Char
  | .nan => ['N', 'a', 'N']
  | .signed negative rank =>
    (if negative then ['-'] else []) ++
      if rank.val = Binary64.infinityRank then ['i', 'n', 'f']
      else layout.digits (Decimal.shortest layout.tie rank.val)

end Layout

end ChunkSizing
