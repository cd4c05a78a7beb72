import ChunkSizing.Proofs.Binary64.Order
import ChunkSizing.Proofs.Rules.Range
import Mathlib.Algebra.Order.Group.Unbundled.Abs

/-!
# ChunkSizing.Proofs.Rules.Nearest — an estimate is the point of the range nearest to the product.

Clamping changes nothing inside the range and goes to the end that is passed outside of it, also
from an infinity (`isNearest_clamp`). A product that is no number comes out at the greatest size,
because the lesser of two values is taken before the greater. None of this depends on the rules.
-/

namespace ChunkSizing

open Binary64

/-- **The point of the range nearest to a number.** The first three parts say where it is, for
infinities too; the last one says that every other point between the ends is farther away. -/
structure IsNearest (x point : Binary64) : Prop where
  below : x < 4 → point = 4
  within : 4 ≤ x → x ≤ 256 → point = x
  above : 256 < x → point = 256
  closest : x.isFinite = true → ∀ other : ℚ, 4 ≤ other → other ≤ 256 → other ≠ point.toRat →
    |x.toRat - point.toRat| < |x.toRat - other|

/-! ## The ends of the range -/

theorem leastChunkSize_ne_nan : leastChunkSize ≠ nan := by
  rw [leastChunkSize_eq]
  exact ofRank_ne_nan false leastRank

theorem greatestChunkSize_ne_nan : greatestChunkSize ≠ nan := by
  rw [greatestChunkSize_eq]
  exact ofRank_ne_nan false greatestRank

@[simp]
theorem toRat_leastChunkSize : leastChunkSize.toRat = 4 := by
  rw [leastChunkSize_eq, toRat_ofRank false (by decide), if_neg Bool.false_ne_true,
    magnitude_leastRank]
  norm_num

@[simp]
theorem toRat_greatestChunkSize : greatestChunkSize.toRat = 256 := by
  rw [greatestChunkSize_eq, toRat_ofRank false (by decide), if_neg Bool.false_ne_true,
    magnitude_greatestRank]
  norm_num

theorem greatestChunkSize_greatest :
    greatestChunkSize.greatest leastChunkSize = greatestChunkSize := by
  unfold greatest
  rw [if_neg greatestChunkSize_ne_nan, if_neg]
  rw [lt_iff_toRat_lt greatestChunkSize_ne_nan leastChunkSize_ne_nan]
  norm_num

/-! ## Where clamping goes -/

theorem clamp_nan : clampChunkSize nan = greatestChunkSize := by
  unfold clampChunkSize least
  rw [if_pos rfl]
  exact greatestChunkSize_greatest

section Clamping

variable {x : Binary64} (hx : x ≠ nan)

include hx

theorem lt_least_iff : x < leastChunkSize ↔ x.toRat < 4 := by
  rw [lt_iff_toRat_lt hx leastChunkSize_ne_nan, toRat_leastChunkSize]

theorem greatest_lt_iff : greatestChunkSize < x ↔ 256 < x.toRat := by
  rw [lt_iff_toRat_lt greatestChunkSize_ne_nan hx, toRat_greatestChunkSize]

theorem least_le_iff : leastChunkSize ≤ x ↔ 4 ≤ x.toRat := by
  rw [le_iff_toRat_le leastChunkSize_ne_nan hx, toRat_leastChunkSize]

theorem le_greatest_iff : x ≤ greatestChunkSize ↔ x.toRat ≤ 256 := by
  rw [le_iff_toRat_le hx greatestChunkSize_ne_nan, toRat_greatestChunkSize]

theorem clamp_of_lt (h : x.toRat < 4) : clampChunkSize x = leastChunkSize := by
  have hnot : ¬ greatestChunkSize < x := by
    rw [greatest_lt_iff hx]
    linarith
  unfold clampChunkSize least greatest
  rw [if_neg hx, if_neg hnot, if_neg hx]
  exact if_pos ((lt_least_iff hx).2 h)

theorem clamp_of_mem (hlow : 4 ≤ x.toRat) (hhigh : x.toRat ≤ 256) : clampChunkSize x = x := by
  have habove : ¬ greatestChunkSize < x := mt (greatest_lt_iff hx).1 (not_lt.2 hhigh)
  have hbelow : ¬ x < leastChunkSize := mt (lt_least_iff hx).1 (not_lt.2 hlow)
  unfold clampChunkSize least greatest
  rw [if_neg hx, if_neg habove, if_neg hx, if_neg hbelow]

theorem clamp_of_gt (h : 256 < x.toRat) : clampChunkSize x = greatestChunkSize := by
  unfold clampChunkSize least
  rw [if_neg hx, if_pos ((greatest_lt_iff hx).2 h)]
  exact greatestChunkSize_greatest

/-- **Clamping goes to the nearest point** of the range. -/
theorem isNearest_clamp : IsNearest x (clampChunkSize x) where
  below h := clamp_of_lt hx ((lt_least_iff hx).1 h)
  within hlow hhigh := clamp_of_mem hx ((least_le_iff hx).1 hlow) ((le_greatest_iff hx).1 hhigh)
  above h := clamp_of_gt hx ((greatest_lt_iff hx).1 h)
  closest := by
    intro _ other hleast hgreatest hne
    rcases lt_or_ge x.toRat 4 with hbelow | hlow
    · rw [clamp_of_lt hx hbelow, toRat_leastChunkSize] at hne ⊢
      have hother : 4 < other := lt_of_le_of_ne hleast hne.symm
      rw [abs_of_neg (by linarith), abs_of_neg (by linarith)]
      linarith
    rcases lt_or_ge 256 x.toRat with habove | hhigh
    · rw [clamp_of_gt hx habove, toRat_greatestChunkSize] at hne ⊢
      have hother : other < 256 := lt_of_le_of_ne hgreatest hne
      rw [abs_of_pos (by linarith), abs_of_pos (by linarith)]
      linarith
    · rw [clamp_of_mem hx hlow hhigh] at hne ⊢
      rw [sub_self, abs_zero]
      exact abs_pos.2 (sub_ne_zero.2 hne.symm)

end Clamping

/-! ## Estimates -/

/-- **An estimate of rules.** Whatever the rules and the measurements are, it is a number of the
range; it is the point of the range nearest to the product of the base and the two factors, and if
that product is no number, it is the greatest size. -/
theorem Rules.estimate_nearest (rules : Rules) (size : Int64)
    (bandwidth latency : Option Binary64) :
    let product := rules.baseFor (megabytesOf size) * rules.bandwidth.factor bandwidth *
      rules.latency.factor latency
    let estimate := rules.estimator.estimate size bandwidth latency
    (estimate ≠ nan ∧ 4 ≤ estimate ∧ estimate ≤ 256) ∧
    (product ≠ nan → IsNearest product estimate) ∧
    (product = nan → estimate = 256) := by
  intro product estimate
  have hestimate : estimate = clampChunkSize product := rfl
  refine ⟨?_, ?_, ?_⟩
  · obtain ⟨rank, hrange, hclamp⟩ := exists_rank_of_clamp product
    rw [hestimate, hclamp]
    exact ⟨ofRank_ne_nan false rank, hrange.four_le, hrange.le_256⟩
  · intro hproduct
    rw [hestimate]
    exact isNearest_clamp hproduct
  · intro hproduct
    rw [hestimate, hproduct]
    exact clamp_nan

/-- A base of infinity: with a factor of zero there is no product, with one of minus two the product
is beyond the other end. -/
theorem Rules.estimate_nearest_at_infinity :
    let rules : Rules := ⟨[], infinity false, ⟨0, 0, 0, -2⟩, ⟨0, 1, 0, 1⟩⟩
    (infinity false * 0 * 1 = nan ∧ rules.estimator.estimate 7 (some 1) none = 256) ∧
      (infinity false * -2 * 1 ≠ nan ∧ rules.estimator.estimate 7 (some (-1)) none = 4) := by
  intro rules
  obtain ⟨-, -, hnan⟩ := rules.estimate_nearest 7 (some 1) none
  obtain ⟨-, hnumber, -⟩ := rules.estimate_nearest 7 (some (-1)) none
  refine ⟨⟨?_, hnan ?_⟩, ?_, (hnumber ?_).below ?_⟩
  all_goals decide +kernel

end ChunkSizing
