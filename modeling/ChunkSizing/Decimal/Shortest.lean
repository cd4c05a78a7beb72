import ChunkSizing.Binary64.Rounding

/-!
# ChunkSizing.Decimal.Shortest — the fewest digits that read back.

Every finite magnitude is nearest to many decimals. The one to write has the fewest digits among
those that correctly rounded reading turns back into the magnitude, and of those it is the nearest.

For each number of digits only two decimals can qualify: the neighbours of the magnitude on the grid
of that many digits. The search tries 1, 2, … 17 digits and reads both neighbours; the first grid
with a hit wins. What happens when both neighbours are hits at exactly equal distance is left to the
caller (`Tie`).
-/

namespace ChunkSizing

/-- Which of two equally near decimals is taken. -/
inductive Tie where
  | toEven
  | awayFromZero
deriving DecidableEq

namespace Decimal

/-- The exponent of the first decimal digit of a nonzero magnitude. Below one it comes from the
least whole number at or above the reciprocal. -/
def leadingOf (rank : Nat) : Int :=
  let units := Binary64.units rank
  let whole := units / Binary64.unitsPerOne
  if 0 < whole then (Nat.toDigits 10 whole).length - 1
  else -(Nat.toDigits 10 ((Binary64.unitsPerOne - 1) / units)).length

/-- Correctly rounded reading of the decimal gives the magnitude of this rank. -/
def ReadsBack (rank : Nat) (d : Decimal) : Prop :=
  Binary64.ofDecimal false d = Binary64.ofRank false rank

instance (rank : Nat) (d : Decimal) : Decidable (d.ReadsBack rank) :=
  inferInstanceAs (Decidable (_ = _))

/-- **The neighbours on one grid.** Of the two decimals with exponent `exponent` around a magnitude,
the one that reads back; of two such the nearer. -/
def onGrid? (tie : Tie) (rank : Nat) (exponent : Int) : Option Decimal :=
  let num := Binary64.units rank * tenTo (-exponent).toNat
  let den := Binary64.unitsPerOne * tenTo exponent.toNat
  let below : Decimal := ⟨num / den, exponent⟩
  let above : Decimal := ⟨num / den + 1, exponent⟩
  let twice := 2 * (num % den)
  if below.ReadsBack rank then
    if above.ReadsBack rank then
      if twice < den then some below
      else if den < twice then some above
      else if tie = .toEven ∧ below.digits % 2 = 0 then some below
      else some above
    else some below
  else if above.ReadsBack rank then some above
  else none

/-- **The shortest decimal of a magnitude.** Seventeen digits always suffice, so the search over
digit counts answers for every nonzero magnitude below infinity. -/
def shortest (tie : Tie) (rank : Nat) : Decimal :=
  if rank = 0 then ⟨0, 0⟩
  else
    let leading := leadingOf rank
    let found := (List.range 17).findSome? fun (extra : Nat) => onGrid? tie rank (leading - extra)
    (found.getD ⟨0, 0⟩).trimmed

-- The least magnitude: both 3 and 7 would read back too, and 5 is nearest.
example : shortest .toEven 1 = ⟨5, -324⟩ := by decide +kernel

-- The magnitude 2 ^ 49 + 1 / 4 lies halfway between two decimals of sixteen digits.
example : shortest .toEven 4827858800541171714 = ⟨5629499534213122, -1⟩ ∧
    shortest .awayFromZero 4827858800541171714 = ⟨5629499534213123, -1⟩ := by decide +kernel

end Decimal

end ChunkSizing
