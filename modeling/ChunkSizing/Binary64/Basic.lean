/-!
# ChunkSizing.Binary64.Basic — binary64 values as signed ranks.

A binary64 number is a sign and a *rank*: the count of magnitudes of the format that lie strictly
below its own. Ranks are consecutive, so the order of numbers is the order of signed ranks, the
neighbours of a number are one rank away, and the parity of a rank is the parity of the significand.
Zero has rank `0`, the least subnormal rank `1`, and infinity the largest rank, `2047 * 2 ^ 52`.

Magnitudes are measured exactly, in units of `2 ^ -1074` (`Binary64.units`). The last section holds
what the format's order decides: comparisons, in which a NaN takes no part, and the two selections
`least` and `greatest`, in which a NaN loses.
-/

namespace ChunkSizing

namespace Binary64

/-- The power of two with this exponent. -/
def twoTo (exponent : Nat) : Nat := Nat.pow 2 exponent

/-- How many magnitudes a binade holds: `2 ^ 52`. -/
abbrev binade : Nat := 0x10000000000000

/-- The rank of infinity: 2047 binades lie below it. -/
abbrev infinityRank : Nat := 0x7ff0000000000000

/-- How many units of `2 ^ -1074` make one. -/
def unitsPerOne : Nat := twoTo 1074

/-- **The exact magnitude of a rank**, in units of `2 ^ -1074`. The first binade counts single
units; from then on each binade doubles the step. At `infinityRank` it is `2 ^ 1024`, the magnitude
at which rounding overflows. -/
def units (rank : Nat) : Nat :=
  if rank < binade then rank else (binade + rank % binade) * twoTo (rank / binade - 1)

end Binary64

/-- A binary64 value: not a number, or a sign with a rank. -/
inductive Binary64 where
  | nan
  | signed (negative : Bool) (rank : Fin (Binary64.infinityRank + 1))
deriving DecidableEq

namespace Binary64

/-! ## Values -/

/-- The number of a sign and a rank; every rank past the last one is infinity. -/
def ofRank (negative : Bool) (rank : Nat) : Binary64 :=
  .signed negative ⟨min rank infinityRank, Nat.lt_succ_of_le (Nat.min_le_right _ _)⟩

/-- Zero with a sign. -/
def zero (negative : Bool) : Binary64 := ofRank negative 0

/-- Infinity with a sign. -/
def infinity (negative : Bool) : Binary64 := ofRank negative infinityRank

/-- Neither a NaN nor an infinity. -/
def isFinite : Binary64 → Bool
  | nan => false
  | signed _ rank => rank.val < infinityRank

/-- Zero of either sign. -/
def isZero : Binary64 → Bool
  | nan => false
  | signed _ rank => rank.val == 0

/-- The value with its sign turned. -/
def negate : Binary64 → Binary64
  | nan => nan
  | signed negative rank => signed (!negative) rank

/-- **The interchange encoding**: the sign bit, then the rank. Every NaN has one encoding here. -/
def toBits : Binary64 → UInt64
  | nan => 0x7ff8000000000000
  | signed negative rank => UInt64.ofNat ((if negative then 0x8000000000000000 else 0) + rank.val)

/-! ## Order -/

/-- The place of a number on the line of signed ranks; both zeros share one place. -/
def place : Binary64 → Option Int
  | nan => none
  | signed negative rank => some (if negative then -(rank.val : Int) else rank.val)

/-- Strictly below; never so when a NaN is compared. -/
def isLess (x y : Binary64) : Bool :=
  match x.place, y.place with
  | some a, some b => a < b
  | _, _ => false

/-- Below or level; never so when a NaN is compared. -/
def isAtMost (x y : Binary64) : Bool :=
  match x.place, y.place with
  | some a, some b => a ≤ b
  | _, _ => false

instance : LT Binary64 := ⟨fun x y => x.isLess y = true⟩

instance : LE Binary64 := ⟨fun x y => x.isAtMost y = true⟩

instance (x y : Binary64) : Decidable (x < y) := inferInstanceAs (Decidable (x.isLess y = true))

instance (x y : Binary64) : Decidable (x ≤ y) := inferInstanceAs (Decidable (x.isAtMost y = true))

/-- The lesser of two values. A NaN gives way to the other operand. -/
def least (x y : Binary64) : Binary64 :=
  if x = nan then y else if y < x then y else x

/-- The greater of two values. A NaN gives way to the other operand. -/
def greatest (x y : Binary64) : Binary64 :=
  if x = nan then y else if x < y then y else x

end Binary64

end ChunkSizing
