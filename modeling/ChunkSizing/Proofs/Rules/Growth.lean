import ChunkSizing.Proofs.Rules.Classes
import ChunkSizing.Proofs.Rules.Nearest
import ChunkSizing.Proofs.Rules.Search

/-!
# ChunkSizing.Proofs.Rules.Growth — when estimates only grow.

A larger file exceeds every limit that a smaller one exceeds, so it finds the same tier or one
behind it: with bases that do not decrease along the list its estimate is not smaller
(`estimate_mono_size`), in whatever order the limits stand. A higher measurement never has a smaller
factor if the factors enclose one. Of a negative base it makes a smaller product; but no product of
such a base is above zero, and all of them are clamped to the least size (`NoLarger.clamp_le`).
-/

namespace ChunkSizing

open Binary64

/-! ## Clamping -/

section Clamping

variable {x y : Binary64}

theorem clamp_ne_nan (x : Binary64) : clampChunkSize x ≠ nan := by
  obtain ⟨rank, -, hclamp⟩ := exists_rank_of_clamp x
  rw [hclamp]
  exact ofRank_ne_nan false rank

theorem toRat_clamp (hx : x ≠ nan) : (clampChunkSize x).toRat = max 4 (min x.toRat 256) := by
  rcases lt_or_ge x.toRat 4 with hbelow | hlow
  · rw [clamp_of_lt hx hbelow, toRat_leastChunkSize, max_eq_left]
    exact (min_le_left _ _).trans hbelow.le
  rcases lt_or_ge 256 x.toRat with habove | hhigh
  · rw [clamp_of_gt hx habove, toRat_greatestChunkSize, min_eq_right habove.le]
    norm_num
  · rw [clamp_of_mem hx hlow hhigh, min_eq_left hhigh, max_eq_right hlow]

/-- **Clamping keeps the order.** -/
theorem clamp_mono (h : x ≤ y) : clampChunkSize x ≤ clampChunkSize y := by
  obtain ⟨hx, hy⟩ := ne_nan_of_le h
  rw [le_iff_toRat_le hx hy] at h
  rw [le_iff_toRat_le (clamp_ne_nan x) (clamp_ne_nan y), toRat_clamp hx, toRat_clamp hy]
  exact max_le_max le_rfl (min_le_min h le_rfl)

theorem clamp_of_le_zero (h : x ≤ 0) : clampChunkSize x = leastChunkSize := by
  obtain ⟨hx, hzero⟩ := ne_nan_of_le h
  have hle : x.toRat ≤ 0 := by
    rw [le_iff_toRat_le hx hzero, zero_eq, toRat_ofRank false (by decide), magnitude_zero,
      if_neg Bool.false_ne_true] at h
    exact h
  exact clamp_of_lt hx (hle.trans_lt (by norm_num))

end Clamping

/-! ## What comes out no larger -/

/-- **Of `x` no more is made than of `y`**, by factors and by clamping: the two are the same value,
which may be no number, or in order, or both not above zero. -/
inductive NoLarger (x y : Binary64) : Prop where
  | same (h : x = y)
  | le (h : x ≤ y)
  | nonpositive (hx : x ≤ 0) (hy : y ≤ 0)

section NoLarger

variable {x y f g : Binary64}

theorem NoLarger.mul_right (h : NoLarger x y) (hf : IsFactor f) : NoLarger (x * f) (y * f) := by
  cases h with
  | same h => exact .same (congrArg (· * f) h)
  | le h => exact .le (hf.mul_le_mul_right h)
  | nonpositive hx hy => exact .nonpositive (hf.mul_le_zero hx) (hf.mul_le_zero hy)

/-- A larger factor makes no less of any value, as far as clamping can tell. -/
theorem noLarger_mul (x : Binary64) (hf : IsFactor f) (hg : IsFactor g) (h : f ≤ g) :
    NoLarger (x * f) (x * g) := by
  by_cases hx : x = nan
  · subst hx
    exact .same rfl
  rcases Binary64.le_total hx (ofRank_ne_nan false 0) with hnonpos | hnonneg
  · rw [← zero_eq] at hnonpos
    exact .nonpositive (hf.mul_le_zero hnonpos) (hg.mul_le_zero hnonpos)
  · rw [← zero_eq] at hnonneg
    exact .le (hf.mul_le_mul_left hg h hnonneg)

theorem NoLarger.clamp_le (h : NoLarger x y) : clampChunkSize x ≤ clampChunkSize y := by
  cases h with
  | same h =>
    rw [h]
    exact Binary64.le_refl (clamp_ne_nan y)
  | le h => exact clamp_mono h
  | nonpositive hx hy =>
    rw [clamp_of_le_zero hx, clamp_of_le_zero hy]
    exact Binary64.le_refl leastChunkSize_ne_nan

end NoLarger

/-! ## Factors -/

theorem isFactor_ofRank {rank : Nat} (hpos : 0 < rank) (hrank : rank < infinityRank) :
    IsFactor (ofRank false rank) := by
  constructor
  · rw [zero_eq]
    exact (ofRank_lt_iff (by decide) hrank.le).2 hpos
  · rw [isFinite_ofRank]
    exact decide_eq_true hrank

theorem isFactor_one : IsFactor 1 := by
  rw [show (1 : Binary64) = ofRank false ((1023 + 0) * binade) from
    ofNat_eq_of_magnitude (magnitude_twoTo 0)]
  exact isFactor_ofRank (by decide) (by decide)

namespace Adjustment

variable {adjustment : Adjustment} {low high : Binary64}

/-- Both factors are positive and finite. -/
structure HasFactors (adjustment : Adjustment) : Prop where
  above : IsFactor adjustment.aboveFactor
  below : IsFactor adjustment.belowFactor

/-- **Factors that enclose one.** Nothing is asked of the limits. -/
structure EnclosesOne (adjustment : Adjustment) : Prop extends HasFactors adjustment where
  below_le_one : adjustment.belowFactor ≤ 1
  one_le_above : 1 ≤ adjustment.aboveFactor

theorem HasFactors.isFactor (h : adjustment.HasFactors) (measurement : Option Binary64) :
    IsFactor (adjustment.factor measurement) := by
  apply factor_of_forall
  · exact h.above
  · exact h.below
  · exact isFactor_one

theorem EnclosesOne.below_le_factor (h : adjustment.EnclosesOne) (measurement : Option Binary64) :
    adjustment.belowFactor ≤ adjustment.factor measurement := by
  apply factor_of_forall (motive := fun factor => adjustment.belowFactor ≤ factor)
  · exact Binary64.le_trans h.below_le_one h.one_le_above
  · exact Binary64.le_refl (ne_nan_of_le h.below_le_one).1
  · exact h.below_le_one

theorem EnclosesOne.factor_le_above (h : adjustment.EnclosesOne) (measurement : Option Binary64) :
    adjustment.factor measurement ≤ adjustment.aboveFactor := by
  apply factor_of_forall (motive := fun factor => factor ≤ adjustment.aboveFactor)
  · exact Binary64.le_refl (ne_nan_of_le h.one_le_above).2
  · exact Binary64.le_trans h.below_le_one h.one_le_above
  · exact h.one_le_above

/-- **A higher measurement has no smaller factor**, wherever the two limits are. -/
theorem EnclosesOne.factor_mono (h : adjustment.EnclosesOne) (hle : low ≤ high) :
    adjustment.factor (some low) ≤ adjustment.factor (some high) := by
  have hone := (ne_nan_of_lt isFactor_one.pos).2
  by_cases habove : adjustment.above < low
  · have habove' : adjustment.above < high := Binary64.lt_of_lt_of_le habove hle
    simp only [factor, habove, habove', if_true]
    exact Binary64.le_refl (ne_nan_of_le h.one_le_above).2
  by_cases hbelow : low < adjustment.below
  · have hfactor : adjustment.factor (some low) = adjustment.belowFactor := by
      simp only [factor, habove, hbelow, if_false, if_true]
    rw [hfactor]
    exact h.below_le_factor (some high)
  · -- neither the lower measurement nor the higher one is below the lower limit
    have hbelow' : ¬ high < adjustment.below :=
      fun hlt => hbelow (Binary64.lt_of_le_of_lt hle hlt)
    simp only [factor, habove, hbelow, hbelow', if_false]
    split
    · exact h.one_le_above
    · exact Binary64.le_refl hone

end Adjustment

namespace Rules

/-! ## Measurements -/

section Products

variable {rules : Rules} {least greatest : Binary64}

/-- **Products lie between those of the ends**: of a bound of all bases with the two factors for low
measurements, and of one with those for high measurements. -/
theorem product_mem (hbandwidth : rules.bandwidth.EnclosesOne)
    (hlatency : rules.latency.EnclosesOne) (hnonneg : 0 ≤ least)
    (hbases : ∀ base ∈ rules.largestBase :: rules.tiers.map SizeTier.base,
      least ≤ base ∧ base ≤ greatest)
    (size : Int64) (bandwidth latency : Option Binary64) :
    least * rules.bandwidth.belowFactor * rules.latency.belowFactor ≤
        rules.product size bandwidth latency ∧
      rules.product size bandwidth latency ≤
        greatest * rules.bandwidth.aboveFactor * rules.latency.aboveFactor := by
  have hfactor := hbandwidth.isFactor bandwidth
  have hfactor' := hlatency.isFactor latency
  obtain ⟨hleast, hgreatest⟩ := hbases _ (rules.baseFor_mem (megabytesOf size))
  constructor
  · have hlow := hbandwidth.below.mul_le_mul hfactor (hbandwidth.below_le_factor bandwidth)
      hnonneg hleast
    exact hlatency.below.mul_le_mul hfactor' (hlatency.below_le_factor latency)
      (hbandwidth.below.mul_nonneg hnonneg) hlow
  · have hbase := Binary64.le_trans hnonneg hleast
    have hhigh := hfactor.mul_le_mul hbandwidth.above (hbandwidth.factor_le_above bandwidth)
      hbase hgreatest
    exact hfactor'.mul_le_mul hlatency.above (hlatency.factor_le_above latency)
      (hfactor.mul_nonneg hbase) hhigh

end Products

/-- **Faster links and longer round trips never get smaller chunks**, whatever the tiers, the bases
and the limits are, as long as the factors enclose one. -/
theorem estimate_mono_measurement (rules : Rules) (hbandwidth : rules.bandwidth.EnclosesOne)
    (hlatency : rules.latency.EnclosesOne) (size : Int64) {low high : Binary64} (h : low ≤ high) :
    (∀ latency, rules.estimator.estimate size (some low) latency ≤
      rules.estimator.estimate size (some high) latency) ∧
    (∀ bandwidth, rules.estimator.estimate size bandwidth (some low) ≤
      rules.estimator.estimate size bandwidth (some high)) := by
  constructor
  · intro latency
    have hproduct := noLarger_mul (rules.baseFor (megabytesOf size))
      (hbandwidth.isFactor (some low)) (hbandwidth.isFactor (some high)) (hbandwidth.factor_mono h)
    exact (hproduct.mul_right (hlatency.isFactor latency)).clamp_le
  · intro bandwidth
    exact (noLarger_mul _ (hlatency.isFactor (some low)) (hlatency.isFactor (some high))
      (hlatency.factor_mono h)).clamp_le

/-- Limits that overlap, and a base that is below everything: a bandwidth between the two limits
counts as high. -/
theorem estimate_mono_measurement_overlapping :
    let rules : Rules := ⟨[⟨1, 20⟩], infinity true, ⟨10, 2, 20, decimal 5 1⟩, standard.latency⟩
    rules.bandwidth.EnclosesOne ∧ rules.latency.EnclosesOne ∧ (5 : Binary64) ≤ 15 ∧
      rules.estimator.estimate 1 (some 5) none ≤ rules.estimator.estimate 1 (some 15) none ∧
      rules.estimator.estimate 9000000 none (some 5) ≤
        rules.estimator.estimate 9000000 none (some 15) := by
  intro rules
  have hbandwidth : rules.bandwidth.EnclosesOne := by
    refine ⟨⟨?_, ?_⟩, ?_, ?_⟩ <;> decide +kernel
  have hlatency : rules.latency.EnclosesOne := by
    refine ⟨⟨?_, ?_⟩, ?_, ?_⟩ <;> decide +kernel
  have hle : (5 : Binary64) ≤ 15 := by decide +kernel
  obtain ⟨hsmall, -⟩ := rules.estimate_mono_measurement hbandwidth hlatency 1 hle
  obtain ⟨-, hlarge⟩ := rules.estimate_mono_measurement hbandwidth hlatency 9000000 hle
  exact ⟨hbandwidth, hlatency, hle, hsmall none, hlarge none⟩

/-! ## Sizes -/

theorem isFactor_bytesPerMegabyte : IsFactor bytesPerMegabyte := by
  rw [bytesPerMegabyte_eq]
  exact isFactor_ofRank (by decide) (by decide)

theorem megabytesOf_mono {size size' : Int64} (h : size ≤ size') :
    megabytesOf size ≤ megabytesOf size' :=
  isFactor_bytesPerMegabyte.div_le_div_right (ofInt_mono (Int64.le_iff_toInt_le.1 h))

/-- **Bases that do not decrease** along the list, up to the one behind all tiers. The limits stand
in any order. -/
structure BasesAscend (rules : Rules) : Prop where
  tiers : rules.tiers.Pairwise fun tier next => tier.base ≤ next.base
  le_largest : ∀ tier ∈ rules.tiers, tier.base ≤ rules.largestBase
  largest_ne_nan : rules.largestBase ≠ nan

variable {rules : Rules} {tiers : List SizeTier} {megabytes megabytes' : Binary64}

/-- **A larger file finds no smaller base.** What fits into a tier fits into it if it is smaller, so
along the list the larger file is the first that goes on. -/
theorem BasesAscend.baseFor_mono (h : (rules.withTiers tiers).BasesAscend)
    (hle : megabytes ≤ megabytes') :
    (rules.withTiers tiers).baseFor megabytes ≤ (rules.withTiers tiers).baseFor megabytes' := by
  induction tiers with
  | nil => exact Binary64.le_refl h.largest_ne_nan
  | cons tier later ih =>
    obtain ⟨hnext, htiers⟩ := List.pairwise_cons.1 h.tiers
    obtain ⟨hfirst, hlater⟩ := List.forall_mem_cons.1 h.le_largest
    rw [baseFor_withTiers_cons, baseFor_withTiers_cons]
    by_cases hfits : megabytes ≤ tier.limit
    · rw [if_pos hfits]
      split
      · exact Binary64.le_refl (ne_nan_of_le hfirst).1
      · exact (rules.withTiers later).baseFor_of_forall (motive := fun base => tier.base ≤ base)
          hnext hfirst megabytes'
    · have hexceeded : ¬ megabytes' ≤ tier.limit :=
        fun hfits' => hfits (Binary64.le_trans hle hfits')
      rw [if_neg hfits, if_neg hexceeded]
      exact ih ⟨htiers, hlater, h.largest_ne_nan⟩

/-- **Bigger files never get smaller chunks**, where the bases do not decrease and the factors are
positive and finite. Nothing is asked of any limit. -/
theorem estimate_mono_size (rules : Rules) (hbases : rules.BasesAscend)
    (hbandwidth : rules.bandwidth.HasFactors) (hlatency : rules.latency.HasFactors)
    {size size' : Int64} (h : size ≤ size') (bandwidth latency : Option Binary64) :
    rules.estimator.estimate size bandwidth latency ≤
      rules.estimator.estimate size' bandwidth latency := by
  have hascend : (rules.withTiers rules.tiers).BasesAscend := hbases
  have hbase : rules.baseFor (megabytesOf size) ≤ rules.baseFor (megabytesOf size') :=
    hascend.baseFor_mono (megabytesOf_mono h)
  have hscaled := (hbandwidth.isFactor bandwidth).mul_le_mul_right hbase
  exact clamp_mono ((hlatency.isFactor latency).mul_le_mul_right hscaled)

/-- Limits out of order, one of them no number, and bases from minus one to infinity. -/
theorem estimate_mono_size_in_disorder :
    let rules : Rules := ⟨[⟨100, -1⟩, ⟨nan, 6⟩, ⟨3, 9⟩], infinity false, ⟨20, 2, 200, 3⟩,
      standard.latency⟩
    rules.BasesAscend ∧ rules.bandwidth.HasFactors ∧ rules.latency.HasFactors ∧
      (1 : Int64) ≤ Int64.maxValue ∧
      rules.estimator.estimate 1 (some 7) none ≤
        rules.estimator.estimate Int64.maxValue (some 7) none := by
  intro rules
  have hbases : rules.BasesAscend := by
    refine ⟨?_, ?_, ofRank_ne_nan false infinityRank⟩
    · show List.Pairwise _ _
      decide +kernel
    · decide +kernel
  have hbandwidth : rules.bandwidth.HasFactors := by
    constructor <;> decide +kernel
  have hlatency : rules.latency.HasFactors := by
    constructor <;> decide +kernel
  have hle : (1 : Int64) ≤ Int64.maxValue := by decide
  exact ⟨hbases, hbandwidth, hlatency, hle,
    rules.estimate_mono_size hbases hbandwidth hlatency hle (some 7) none⟩

end Rules

end ChunkSizing
