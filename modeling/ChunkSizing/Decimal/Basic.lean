/-!
# ChunkSizing.Decimal.Basic — exact decimals.

A decimal is a whole number of digits scaled by a power of ten. It is what a number's text denotes,
before any rounding to a binary format.
-/

namespace ChunkSizing

/-- The number `digits * 10 ^ exponent`. -/
structure Decimal where
  digits : Nat
  exponent : Int
deriving DecidableEq

namespace Decimal

/-- The power of ten with this exponent. -/
def tenTo (exponent : Nat) : Nat := Nat.pow 10 exponent

/-- Over `denominator`, the exact value. -/
def numerator (d : Decimal) : Nat := d.digits * tenTo d.exponent.toNat

/-- The power of ten that a negative exponent divides by. -/
def denominator (d : Decimal) : Nat := tenTo (-d.exponent).toNat

/-- The digits as written, the highest first. -/
def written (d : Decimal) : List Char := Nat.toDigits 10 d.digits

/-- The exponent of the first digit: the value is `d.ddd * 10 ^ leading`. -/
def leading (d : Decimal) : Int := d.written.length - 1 + d.exponent

/-- The same value without zeros at the end of its digits. -/
def trimmed (d : Decimal) : Decimal :=
  let zeros := (d.written.reverse.takeWhile (· == '0')).length
  ⟨d.digits / tenTo zeros, d.exponent + zeros⟩

end Decimal

end ChunkSizing
