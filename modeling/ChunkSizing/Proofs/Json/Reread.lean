import ChunkSizing.Json.Fault
import ChunkSizing.Proofs.Decimal.Shortest
import ChunkSizing.Proofs.Json.Scaling

/-!
# ChunkSizing.Proofs.Json.Reread — what becomes of a number that is written and read again.

The writer is exact and the reader is not, so a number may come back as a neighbour. `rereadRank` is
the rank that comes back. It need not be monotone, but a threshold is crossed by very few numbers:
on the grid of an exponent there is one least significand above a threshold, and reading is monotone
in the significand. So nineteen readings, one for each exponent that matters, decide whether all the
numbers above a threshold stay above it (`KeepsAbove`), and as many whether those below it stay
below (`KeepsBelow`). That finite numbers come back finite is decided in the same way at the other
end.
-/

namespace ChunkSizing.Json

open Binary64 Decimal

/-! ## What is gathered from a text -/

/-- **The digits and the exponent that the reader gathers** from the text of a decimal. A whole
number that is written positionally carries one zero behind the point. -/
def gathered (d : Decimal) : Decimal :=
  if 0 ≤ d.exponent ∧ numberLayout.positional d.leading then
    ⟨d.digits * tenTo (d.exponent + 1).toNat, -1⟩
  else d

theorem value_gathered (d : Decimal) : (gathered d).value = d.value := by
  unfold gathered
  split
  · rename_i h
    obtain ⟨exponent, hexponent⟩ := Int.eq_ofNat_of_zero_le h.1
    unfold value
    rw [hexponent, show ((exponent : ℕ) : ℤ) + 1 = ((exponent + 1 : ℕ) : ℤ) from rfl,
      Int.toNat_natCast]
    push_cast
    rw [cast_tenTo, pow_succ, zpow_natCast, zpow_neg_one]
    field_simp
  · rfl

theorem digits_gathered_lt {d : Decimal} (h : d.digits < 10 ^ 17) :
    (gathered d).digits < 10 ^ 17 := by
  unfold gathered
  split
  · rename_i hwhole
    obtain ⟨exponent, hexponent⟩ := Int.eq_ofNat_of_zero_le hwhole.1
    have hpositional : -5 ≤ d.leading ∧ d.leading ≤ 15 := of_decide_eq_true hwhole.2
    have hlength : d.written.length + exponent ≤ 16 := by
      have : d.leading = d.written.length - 1 + d.exponent := rfl
      omega
    have hdigits := Nat.mul_lt_mul_of_pos_right (digits_lt d) (Nat.pow_pos (n := exponent + 1)
      (show 0 < 10 by decide))
    show d.digits * tenTo (d.exponent + 1).toNat < 10 ^ 17
    rw [hexponent, show ((exponent : ℕ) : ℤ) + 1 = ((exponent + 1 : ℕ) : ℤ) from rfl,
      Int.toNat_natCast]
    refine Nat.lt_of_lt_of_le hdigits ?_
    rw [← Nat.pow_add]
    exact Nat.pow_le_pow_right (by decide) (by omega)
  · exact h

/-- **The rank that comes back** when the number of a rank is written and read again. -/
def rereadRank (rank : Nat) : Nat :=
  let d := gathered (quickShortest rank)
  scaledRank d.digits d.exponent

theorem rereadRank_eq {rank : Nat} (hfinite : rank < infinityRank) :
    rereadRank rank = scaledRank (gathered (shortest .toEven rank)).digits
      (gathered (shortest .toEven rank)).exponent := by
  unfold rereadRank
  rw [quickShortest_eq hfinite]

/-! ## What is known of the gathered decimal -/

/-- A decimal that stands for a rank: rounding gives the rank, and there are few digits. -/
structure StandsFor (rank : Nat) (d : Decimal) : Prop where
  rankOf_value : rankOf d.value = rank
  digits_lt : d.digits < 10 ^ 17

theorem gathered_standsFor {rank : Nat} (hfinite : rank < infinityRank) :
    StandsFor rank (gathered (shortest .toEven rank)) where
  rankOf_value := by
    rw [value_gathered]
    exact (readsBack_iff hfinite _).1 (readsBack_shortest .toEven hfinite)
  digits_lt := digits_gathered_lt (digits_shortest_lt .toEven hfinite)

namespace StandsFor

variable {rank : Nat} {d : Decimal}

/-- Finite numbers have fewer than 310 digits before the point. -/
theorem exponent_le (h : StandsFor rank d) (hfinite : rank < infinityRank) (hne : d.digits ≠ 0) :
    d.exponent ≤ 308 := by
  by_contra hgt
  have hvalue : magnitude infinityRank ≤ d.value := by
    calc magnitude infinityRank ≤ (10 : ℚ) ^ (309 : ℕ) := magnitude_infinityRank_lt.le
      _ = (10 : ℚ) ^ (309 : ℤ) := (zpow_natCast _ 309).symm
      _ ≤ (10 : ℚ) ^ d.exponent := zpow_le_zpow_right₀ (by norm_num) (by omega)
      _ ≤ d.digits * (10 : ℚ) ^ d.exponent := by
        apply le_mul_of_one_le_left (by positivity)
        exact_mod_cast Nat.pos_iff_ne_zero.2 hne
  have := le_rankOf hvalue
  rw [h.rankOf_value] at this
  omega

/-- Above a rank the digits exceed what the rank has on the same grid. -/
theorem gridFloor_lt_digits (h : StandsFor rank d) {low : Nat} (hlow : low < rank) :
    gridFloor low d.exponent < d.digits := by
  have hfloor := (gridFloor_spec low d.exponent).1
  have hvalue : magnitude low < d.value := magnitude_lt_of_lt_rankOf (by rwa [h.rankOf_value])
  have hlt : (gridFloor low d.exponent : ℚ) < d.digits :=
    lt_of_mul_lt_mul_right (hfloor.trans_lt hvalue) (by positivity)
  exact_mod_cast hlt

theorem digits_le_gridFloor (h : StandsFor rank d) {high : Nat} (hhigh : rank < high) :
    d.digits ≤ gridFloor high d.exponent := by
  have hfloor := (gridFloor_spec high d.exponent).2
  have hvalue : d.value < magnitude high := lt_magnitude_of_rankOf_lt (by rwa [h.rankOf_value])
  have hlt : (d.digits : ℚ) < (gridFloor high d.exponent + 1 : ℕ) :=
    lt_of_mul_lt_mul_right (hvalue.trans hfloor) (by positivity)
  exact Nat.le_of_lt_succ (by exact_mod_cast hlt)

end StandsFor

/-! ## Thresholds -/

/-- The exponents at which seventeen digits can stand for a magnitude between one and a thousand. -/
def exponents : List Int := (List.range 19).map fun (n : Nat) => (n : Int) - 16

theorem mem_exponents {exponent : Int} (hlow : -16 ≤ exponent) (hhigh : exponent ≤ 2) :
    exponent ∈ exponents := by
  refine List.mem_map.2 ⟨(exponent + 16).toNat, List.mem_range.2 ?_, ?_⟩ <;> omega

/-- No number from `low` on comes back below `bound`. -/
def KeepsAbove (low bound : Nat) : Prop :=
  tenRank 0 ≤ low ∧ bound ≤ tenRank 3 ∧ bound ≤ rereadRank low ∧
  ∀ exponent ∈ exponents, gridFloor low exponent + 1 < 10 ^ 17 →
    bound ≤ scaledRank (gridFloor low exponent + 1) exponent

/-- No number up to `high` comes back above `bound`. -/
def KeepsBelow (high bound : Nat) : Prop :=
  high < tenRank 3 ∧ tenRank 0 ≤ bound ∧ rereadRank high ≤ bound ∧
  ∀ exponent ∈ exponents, scaledRank (min (gridFloor high exponent) (10 ^ 17)) exponent ≤ bound

instance (low bound : Nat) : Decidable (KeepsAbove low bound) :=
  inferInstanceAs (Decidable (_ ∧ _ ∧ _ ∧ _))

instance (high bound : Nat) : Decidable (KeepsBelow high bound) :=
  inferInstanceAs (Decidable (_ ∧ _ ∧ _ ∧ _))

/-- Seventeen digits that far below the point are less than one. -/
theorem StandsFor.rank_le {rank : Nat} {d : Decimal} (h : StandsFor rank d)
    (hexponent : d.exponent ≤ -17) : rank ≤ tenRank 0 := by
  rw [← h.rankOf_value, tenRank_eq, pow_zero]
  apply rankOf_mono
  have hdigits : (d.digits : ℚ) ≤ 10 ^ (17 : ℤ) := by
    have := h.digits_lt.le
    exact_mod_cast this
  have hpower : (10 : ℚ) ^ d.exponent ≤ 10 ^ (-17 : ℤ) :=
    zpow_le_zpow_right₀ (by norm_num) hexponent
  calc d.value ≤ 10 ^ (17 : ℤ) * 10 ^ (-17 : ℤ) :=
        mul_le_mul hdigits hpower (by positivity) (by positivity)
    _ = 1 := by norm_num

/-- A digit with three zeros behind it is at least a thousand. -/
theorem StandsFor.le_rank {rank : Nat} {d : Decimal} (h : StandsFor rank d)
    (hexponent : 3 ≤ d.exponent) (hdigits : 0 < d.digits) : tenRank 3 ≤ rank := by
  rw [← h.rankOf_value, tenRank_eq]
  apply rankOf_mono
  have hdigits' : (1 : ℚ) ≤ d.digits := by exact_mod_cast hdigits
  calc (10 : ℚ) ^ 3 = 1 * 10 ^ (3 : ℤ) := by norm_num
    _ ≤ d.digits * 10 ^ d.exponent :=
      mul_le_mul hdigits' (zpow_le_zpow_right₀ (by norm_num) hexponent) (by positivity)
        (by positivity)

/-- **From a threshold on.** The digits that stand for a larger rank are at least the least ones
above the threshold on the same grid. -/
theorem KeepsAbove.le_rereadRank {low bound rank : Nat} (h : KeepsAbove low bound)
    (hlow : low ≤ rank) (hfinite : rank < infinityRank) : bound ≤ rereadRank rank := by
  obtain ⟨hone, hthousand, hself, hgrid⟩ := h
  rcases Nat.lt_or_eq_of_le hlow with hlt | rfl
  · have hd := gathered_standsFor hfinite
    rw [rereadRank_eq hfinite]
    generalize gathered (shortest .toEven rank) = d at hd ⊢
    have hdigits := hd.gridFloor_lt_digits hlt
    have hfew := hd.digits_lt
    -- outside the swept exponents the decimal is a thousand at least, or less than one
    by_cases hlarge : 3 ≤ d.exponent
    · exact hthousand.trans (le_scaledRank (by omega) hlarge)
    · have hsmall : ¬ d.exponent ≤ -17 := by
        intro hexponent
        have := hd.rank_le hexponent
        omega
      have hmem : d.exponent ∈ exponents := mem_exponents (by omega) (by omega)
      exact (hgrid d.exponent hmem (by omega)).trans (scaledRank_mono d.exponent hdigits)
  · exact hself

/-- **Up to a threshold.** -/
theorem KeepsBelow.rereadRank_le {high bound rank : Nat} (h : KeepsBelow high bound)
    (hhigh : rank ≤ high) : rereadRank rank ≤ bound := by
  obtain ⟨hthousand, hone, hself, hgrid⟩ := h
  rcases Nat.lt_or_eq_of_le hhigh with hlt | rfl
  · have hfinite : rank < infinityRank :=
      (hlt.trans hthousand).trans (tenRank_lt (by decide))
    have hd := gathered_standsFor hfinite
    rw [rereadRank_eq hfinite]
    generalize gathered (shortest .toEven rank) = d at hd ⊢
    have hdigits := hd.digits_le_gridFloor hlt
    have hfew := hd.digits_lt
    by_cases hlarge : 3 ≤ d.exponent
    · have hzero : d.digits = 0 := by
        by_contra hne
        have := hd.le_rank hlarge (Nat.pos_iff_ne_zero.2 hne)
        omega
      rw [hzero, scaledRank_zero]
      exact Nat.zero_le _
    by_cases hsmall : d.exponent ≤ -17
    · exact (scaledRank_le_one hfew.le hsmall).trans hone
    · have hmem : d.exponent ∈ exponents := mem_exponents (by omega) (by omega)
      exact (scaledRank_mono d.exponent (by omega)).trans (hgrid d.exponent hmem)
  · exact hself

/-! ## Finite numbers -/

/-- The largest significands of the last powers of ten. -/
theorem scaledRank_gridFloor_lt : ∀ extra ∈ List.range 17,
    scaledRank (gridFloor (infinityRank - 1) (292 + extra)) (292 + extra) < infinityRank := by
  decide +kernel

/-- **Finite numbers come back finite.** -/
theorem rereadRank_lt {rank : Nat} (hfinite : rank < infinityRank) :
    rereadRank rank < infinityRank := by
  have hd := gathered_standsFor hfinite
  rcases Nat.lt_or_ge rank (infinityRank - 1) with hlt | hge
  · rw [rereadRank_eq hfinite]
    generalize gathered (shortest .toEven rank) = d at hd ⊢
    by_cases hsmall : d.exponent ≤ 291
    · exact scaledRank_lt_of_le hd.digits_lt.le hsmall
    by_cases hzero : d.digits = 0
    · rw [hzero, scaledRank_zero]
      decide
    · have hlarge := hd.exponent_le hfinite hzero
      obtain ⟨extra, hextra⟩ : ∃ extra : Nat, d.exponent = 292 + extra :=
        ⟨(d.exponent - 292).toNat, by omega⟩
      have hdigits := hd.digits_le_gridFloor hlt
      rw [hextra] at hdigits ⊢
      exact Nat.lt_of_le_of_lt (scaledRank_mono _ hdigits)
        (scaledRank_gridFloor_lt extra (List.mem_range.2 (by omega)))
  -- no finite rank bounds the digits of the largest one
  · obtain rfl : rank = infinityRank - 1 := by omega
    decide +kernel

end ChunkSizing.Json
