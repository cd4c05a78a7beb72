import ChunkSizing.Proofs.Binary64.Rank
import Mathlib.Algebra.Order.Field.Basic
import Mathlib.Data.Rat.Cast.Order
import Mathlib.Tactic.FieldSimp
import Mathlib.Tactic.Linarith

/-!
# ChunkSizing.Proofs.Binary64.Magnitude — magnitudes as rational numbers.

`magnitude rank` is the exact value of a rank and `rankOf q` the rank nearest to a rational number.
The two form the usual pair of a rounding: `rankOf` is monotone and undoes `magnitude`, so a
comparison of a rational with a magnitude decides the comparison of the ranks. Every operation that
rounds is `rankOf` of the exact result.
-/

namespace ChunkSizing.Binary64

/-- The exact value of a rank. -/
def magnitude (rank : Nat) : ℚ := units rank / unitsPerOne

/-- The rank nearest to a rational number; a negative one goes to zero. -/
def rankOf (q : ℚ) : Nat := nearestRank (q.num.toNat * unitsPerOne) q.den

theorem unitsPerOne_pos : 0 < unitsPerOne := twoTo_pos 1074

private theorem unitsPerOne_pos' : (0 : ℚ) < unitsPerOne := by exact_mod_cast unitsPerOne_pos

/-! ## Magnitudes -/

theorem magnitude_zero : magnitude 0 = 0 := by
  unfold magnitude
  rw [units_zero, Nat.cast_zero, zero_div]

theorem magnitude_strictMono : StrictMono magnitude := by
  intro low high h
  have hunits : (units low : ℚ) < units high := by exact_mod_cast units_strictMono h
  exact div_lt_div_of_pos_right hunits unitsPerOne_pos'

theorem magnitude_nonneg (rank : Nat) : 0 ≤ magnitude rank := by
  exact div_nonneg (Nat.cast_nonneg _) (Nat.cast_nonneg _)

theorem magnitude_pos {rank : Nat} (h : 0 < rank) : 0 < magnitude rank :=
  magnitude_zero ▸ magnitude_strictMono h

/-- A power of two opens its binade. -/
theorem magnitude_twoTo (exponent : Nat) :
    magnitude ((1023 + exponent) * binade) = (twoTo exponent : ℕ) := by
  have hne : (unitsPerOne : ℚ) ≠ 0 := unitsPerOne_pos'.ne'
  have hunits : units ((1023 + exponent) * binade) = twoTo exponent * unitsPerOne := by
    have hopening :
        units ((1022 + exponent) * binade + binade) = binade * twoTo (1022 + exponent) :=
      units_of_binade (by decide) (.inr (Nat.le_refl _))
    have hbinade : binade = twoTo 52 := by decide
    have hplaces : 52 + (1022 + exponent) = exponent + 1074 := by omega
    have hrank : (1023 + exponent) * binade = (1022 + exponent) * binade + binade := by ring
    rw [hrank, hopening, hbinade, ← twoTo_add, hplaces, twoTo_add]
    rfl
  unfold magnitude
  rw [hunits, Nat.cast_mul, mul_div_cancel_right₀ _ hne]

/-- A significand of full length has so many binary places. -/
theorem magnitude_of_places {rank significand : Nat} (places : Nat) (hplaces : places ≤ 1074)
    (hlow : binade ≤ significand) (hhigh : significand ≤ 2 * binade)
    (hrank : rank = (1074 - places) * binade + significand) :
    magnitude rank * twoTo places = significand := by
  have hne : (unitsPerOne : ℚ) ≠ 0 := unitsPerOne_pos'.ne'
  have hone : twoTo (1074 - places) * twoTo places = unitsPerOne := by
    rw [← twoTo_add, Nat.sub_add_cancel hplaces]
    rfl
  unfold magnitude
  rw [hrank, units_of_binade hhigh (.inr hlow), div_mul_eq_mul_div, div_eq_iff hne, ← Nat.cast_mul,
    Nat.mul_assoc, hone, Nat.cast_mul]

/-- A whole number that fills its significand with zeros. -/
theorem magnitude_of_natCast {rank n : Nat} (places : Nat) (hplaces : places ≤ 1074)
    (hlow : binade ≤ n * twoTo places) (hhigh : n * twoTo places ≤ 2 * binade)
    (hrank : rank = (1074 - places) * binade + n * twoTo places) : magnitude rank = n := by
  have hpos : (twoTo places : ℚ) ≠ 0 := by exact_mod_cast (twoTo_pos places).ne'
  apply mul_right_cancel₀ hpos
  rw [magnitude_of_places places hplaces hlow hhigh hrank, Nat.cast_mul]

/-! ## The nearest rank of a rational -/

/-- Quotients of units are rounded as rationals. -/
theorem nearestRank_eq_rankOf (num : Nat) {den : Nat} (hden : 0 < den) :
    nearestRank num den = rankOf (num / (den * unitsPerOne)) := by
  set q : ℚ := num / (den * unitsPerOne) with hq
  have hden' : (0 : ℚ) < den := by exact_mod_cast hden
  have hpos := unitsPerOne_pos'
  have hnonneg : 0 ≤ q.num :=
    Rat.num_nonneg.2 (div_nonneg (Nat.cast_nonneg _) (mul_pos hden' hpos).le)
  have hcross : q.num.toNat * unitsPerOne * den = num * q.den := by
    have hnum : ((q.num.toNat : ℕ) : ℚ) = q * q.den := by
      rw [Rat.mul_den_eq_num, ← Int.cast_natCast, Int.toNat_of_nonneg hnonneg]
    have : (q.num.toNat : ℚ) * unitsPerOne * den = num * q.den := by
      rw [hnum, hq]
      field_simp
    exact_mod_cast this
  exact Nat.le_antisymm (nearestRank_mono hden q.den_pos hcross.ge)
    (nearestRank_mono q.den_pos hden hcross.le)

/-- A rational is rounded as its quotient of units. -/
theorem rankOf_div (num : Nat) {den : Nat} (hden : 0 < den) :
    rankOf ((num : ℚ) / den) = nearestRank (num * unitsPerOne) den := by
  rw [nearestRank_eq_rankOf _ hden]
  push_cast
  rw [mul_div_mul_right _ _ (by exact_mod_cast unitsPerOne_pos.ne')]

theorem rankOf_natCast (n : Nat) : rankOf n = nearestRank (n * unitsPerOne) 1 := by
  have h := rankOf_div n Nat.one_pos
  rwa [Nat.cast_one, div_one] at h

theorem rankOf_mono : Monotone rankOf := by
  intro p q h
  refine nearestRank_mono p.den_pos q.den_pos ?_
  rw [Nat.mul_right_comm, Nat.mul_right_comm _ unitsPerOne]
  refine Nat.mul_le_mul_right _ ?_
  have hcross : p.num * q.den ≤ q.num * p.den := (Rat.le_iff p q).1 h
  have hp := p.den_pos
  have hq := q.den_pos
  -- a negative numerator is cut to zero, so the order of the numerators is not enough
  rcases Int.le_total p.num 0 with hneg | hnonneg
  · rw [Int.toNat_of_nonpos hneg, Nat.zero_mul]
    exact Nat.zero_le _
  · have hnonneg' : 0 ≤ q.num := by
      by_contra hlt
      have : q.num * p.den < 0 := Int.mul_neg_of_neg_of_pos (by omega) (by exact_mod_cast hp)
      have : 0 ≤ p.num * q.den := Int.mul_nonneg hnonneg (by omega)
      omega
    zify
    rwa [Int.toNat_of_nonneg hnonneg, Int.toNat_of_nonneg hnonneg']

/-- **Rounding undoes measuring.** -/
@[simp]
theorem rankOf_magnitude (rank : Nat) : rankOf (magnitude rank) = rank := by
  have h := nearestRank_eq_rankOf (units rank) Nat.one_pos
  rw [Nat.cast_one, one_mul] at h
  have hexact := nearestRank_units rank Nat.one_pos
  rw [Nat.mul_one] at hexact
  exact h.symm.trans hexact

theorem le_rankOf {rank : Nat} {q : ℚ} (h : magnitude rank ≤ q) : rank ≤ rankOf q := by
  rw [← rankOf_magnitude rank]
  exact rankOf_mono h

theorem rankOf_le {rank : Nat} {q : ℚ} (h : q ≤ magnitude rank) : rankOf q ≤ rank := by
  rw [← rankOf_magnitude rank]
  exact rankOf_mono h

theorem rankOf_zero : rankOf ((0 : ℕ) : ℚ) = 0 := by
  rw [Nat.cast_zero, ← magnitude_zero, rankOf_magnitude]

theorem rankOf_lt_of_word {n : Nat} (h : n < UInt64.size) : rankOf n < infinityRank := by
  have hword : magnitude ((1023 + 64) * binade) = (UInt64.size : ℕ) := magnitude_twoTo 64
  have hle : (n : ℚ) ≤ magnitude ((1023 + 64) * binade) := by
    rw [hword]
    exact_mod_cast h.le
  exact Nat.lt_of_le_of_lt (rankOf_le hle) (by decide)

theorem lt_magnitude_of_rankOf_lt {rank : Nat} {q : ℚ} (h : rankOf q < rank) :
    q < magnitude rank := by
  by_contra hle
  exact absurd (le_rankOf (not_lt.1 hle)) (Nat.not_le.2 h)

theorem magnitude_lt_of_lt_rankOf {rank : Nat} {q : ℚ} (h : rank < rankOf q) :
    magnitude rank < q := by
  by_contra hle
  exact absurd (rankOf_le (not_lt.1 hle)) (Nat.not_le.2 h)

/-! ## Midpoints -/

/-- A quotient in halves of the units, for a comparison with a midpoint. -/
private theorem midpoint_iff (q : ℚ) (hq : 0 ≤ q) (rank : Nat) :
    (2 * (q.num.toNat * unitsPerOne) < (units rank + units (rank + 1)) * q.den ↔
      2 * q < magnitude rank + magnitude (rank + 1)) ∧
    ((units rank + units (rank + 1)) * q.den < 2 * (q.num.toNat * unitsPerOne) ↔
      magnitude rank + magnitude (rank + 1) < 2 * q) := by
  have hpos := unitsPerOne_pos'
  have hden : (0 : ℚ) < q.den := by exact_mod_cast q.den_pos
  have hnum : ((q.num.toNat : ℕ) : ℚ) = q * q.den := by
    rw [Rat.mul_den_eq_num, ← Int.cast_natCast, Int.toNat_of_nonneg (Rat.num_nonneg.2 hq)]
  have hleft : ((2 * (q.num.toNat * unitsPerOne) : ℕ) : ℚ) =
      2 * q * (unitsPerOne * q.den) := by
    push_cast
    rw [hnum]
    ring
  have hright : (((units rank + units (rank + 1)) * q.den : ℕ) : ℚ) =
      (magnitude rank + magnitude (rank + 1)) * (unitsPerOne * q.den) := by
    push_cast
    unfold magnitude
    field_simp
  have hscale : (0 : ℚ) < unitsPerOne * q.den := mul_pos hpos hden
  rw [← Nat.cast_lt (α := ℚ), ← Nat.cast_lt (α := ℚ), hleft, hright]
  exact ⟨mul_lt_mul_iff_of_pos_right hscale, mul_lt_mul_iff_of_pos_right hscale⟩

theorem rankOf_le_of_lt_midpoint {rank : Nat} {q : ℚ} (hq : 0 ≤ q)
    (h : 2 * q < magnitude rank + magnitude (rank + 1)) : rankOf q ≤ rank :=
  nearestRank_le_of_lt_midpoint q.den_pos ((midpoint_iff q hq rank).1.2 h)

theorem lt_rankOf_of_midpoint_lt {rank : Nat} {q : ℚ}
    (h : magnitude rank + magnitude (rank + 1) < 2 * q) : rank < rankOf q := by
  have hq : 0 ≤ q := by
    have := magnitude_nonneg rank
    have := magnitude_nonneg (rank + 1)
    linarith
  exact lt_nearestRank_of_midpoint_lt q.den_pos ((midpoint_iff q hq rank).2.2 h)

theorem rankOf_of_midpoint {rank : Nat} {q : ℚ}
    (h : 2 * q = magnitude rank + magnitude (rank + 1)) : rankOf q % 2 = 0 := by
  have hq : 0 ≤ q := by
    have := magnitude_nonneg rank
    have := magnitude_nonneg (rank + 1)
    linarith
  obtain ⟨hbelow, habove⟩ := midpoint_iff q hq rank
  have hupper := Nat.not_lt.1 (mt hbelow.1 h.not_lt)
  have hlower := Nat.not_lt.1 (mt habove.1 h.not_gt)
  exact nearestRank_of_midpoint q.den_pos (Nat.le_antisymm hlower hupper)

end ChunkSizing.Binary64
