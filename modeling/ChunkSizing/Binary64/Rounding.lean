import ChunkSizing.Binary64.Basic
import ChunkSizing.Decimal.Basic

/-!
# ChunkSizing.Binary64.Rounding — one rounding, and the operations that need it.

Every result is computed exactly as a quotient of natural numbers and rounded once, to the nearest
magnitude and to the even one of two equally near (`Binary64.nearestRank`). Products, quotients,
conversions from integers and correctly rounded reading of decimals are that one function applied to
four quotients.
-/

namespace ChunkSizing.Binary64

/-! ## Rounding a quotient -/

/-- The integer nearest to `num / den`; of two equally near the even one. -/
def roundHalfEven (num den : Nat) : Nat :=
  let floor := num / den
  let twice := 2 * (num % den)
  if den < twice ∨ (twice = den ∧ floor % 2 = 1) then floor + 1 else floor

/-- **The rank nearest to `num / den` units.** A quotient of more than 53 bits is rounded at the
step of its binade; a carry out of the significand lands on the first rank of the next binade,
because ranks are consecutive. -/
def nearestRank (num den : Nat) : Nat :=
  let shift := (num / den).log2 - 52
  shift * binade + roundHalfEven num (den * twoTo shift)

/-- The number nearest to `num / den` units with the given sign. -/
def ofRatio (negative : Bool) (num den : Nat) : Binary64 :=
  ofRank negative (nearestRank num den)

/-! ## Conversions -/

/-- The number nearest to an integer; zero is positive. -/
def ofInt (n : Int) : Binary64 :=
  ofRatio (n < 0) (n.natAbs * unitsPerOne) 1

/-- **Correctly rounded reading.** The number nearest to a decimal. A decimal whose first digit
stands beyond every finite magnitude, or below half the least one, is settled from its exponent
alone, so that the powers of ten stay small. -/
def ofDecimal (negative : Bool) (d : Decimal) : Binary64 :=
  if d.digits = 0 then zero negative
  else if 310 < d.leading then infinity negative
  else if d.leading < -330 then zero negative
  else ofRatio negative (d.numerator * unitsPerOne) d.denominator

/-- The whole part as a 64-bit word. A NaN and every negative value give zero, and values too large
give the largest word. -/
def toUInt64 : Binary64 → UInt64
  | nan => 0
  | signed true _ => 0
  | signed false rank => UInt64.ofNat (min (units rank / unitsPerOne) (UInt64.size - 1))

/-! ## Products and quotients -/

/-- The rounded product. Zero times infinity is not a number. -/
def mul : Binary64 → Binary64 → Binary64
  | signed s a, signed t b =>
    if a.val = infinityRank ∨ b.val = infinityRank then
      if a.val = 0 ∨ b.val = 0 then nan else infinity (s != t)
    else ofRatio (s != t) (units a * units b) unitsPerOne
  | _, _ => nan

/-- The rounded quotient. Zero by zero and infinity by infinity are not numbers. -/
def div : Binary64 → Binary64 → Binary64
  | signed s a, signed t b =>
    if a.val = infinityRank then
      if b.val = infinityRank then nan else infinity (s != t)
    else if b.val = infinityRank then zero (s != t)
    else if b.val = 0 then
      if a.val = 0 then nan else infinity (s != t)
    else ofRatio (s != t) (units a * unitsPerOne) (units b)
  | _, _ => nan

instance : Mul Binary64 := ⟨mul⟩

instance : Div Binary64 := ⟨div⟩

instance : Neg Binary64 := ⟨negate⟩

instance (n : Nat) : OfNat Binary64 n := ⟨ofInt n⟩

/-! ## Boundaries of the format -/

-- One half of the least magnitude is a tie and goes to zero; anything above it does not.
example : nearestRank 1 2 = 0 ∧ nearestRank 3 5 = 1 ∧ nearestRank 3 2 = 2 := by decide

-- The significand carries into the next binade, and the last carry is infinity.
example : nearestRank (4 * binade - 1) 1 = 3 * binade := by decide

example : ofRank false (nearestRank (twoTo 2098 - twoTo 2044) 1) = infinity false := by
  decide +kernel

end ChunkSizing.Binary64
