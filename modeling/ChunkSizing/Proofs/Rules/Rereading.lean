import ChunkSizing.Proofs.Json.NumberText
import ChunkSizing.Proofs.Rules.Classes
import ChunkSizing.Proofs.Rules.Search

/-!
# ChunkSizing.Proofs.Rules.Rereading — the standard rules and numbers that come back as neighbours.

The rules compare a measurement with two limits. Written and read, no finite bandwidth changes
sides, and of the latencies exactly one does: the number next above 100 comes back as 100
(`Rules.blurredLatency`). The estimates themselves are few, and each comes back as it was.
-/

namespace ChunkSizing

open Binary64

/-! ## Limits that are kept -/

/-- The ranks of 20, 100 and 200. -/
abbrev rankOf20 : Nat := 0x4034000000000000

abbrev rankOf100 : Nat := 0x4059000000000000

abbrev rankOf200 : Nat := 0x4069000000000000

theorem magnitude_rankOf20 : magnitude rankOf20 = (20 : ℕ) :=
  magnitude_of_natCast 48 (by decide) (by decide) (by decide) (by decide)

theorem magnitude_rankOf100 : magnitude rankOf100 = (100 : ℕ) :=
  magnitude_of_natCast 46 (by decide) (by decide) (by decide) (by decide)

theorem magnitude_rankOf200 : magnitude rankOf200 = (200 : ℕ) :=
  magnitude_of_natCast 45 (by decide) (by decide) (by decide) (by decide)

theorem limits_eq : (20 : Binary64) = ofRank false rankOf20 ∧
    (100 : Binary64) = ofRank false rankOf100 ∧ (200 : Binary64) = ofRank false rankOf200 :=
  ⟨ofNat_eq_of_magnitude magnitude_rankOf20, ofNat_eq_of_magnitude magnitude_rankOf100,
    ofNat_eq_of_magnitude magnitude_rankOf200⟩

/-- **What the limits keep apart.** Above 100 there is one exception, the rank next to it. -/
theorem keeps_limits :
    (Json.KeepsAbove rankOf20 rankOf20 ∧ Json.KeepsBelow (rankOf20 - 1) (rankOf20 - 1)) ∧
    (Json.KeepsAbove (rankOf100 + 2) (rankOf100 + 1) ∧ Json.KeepsBelow rankOf100 rankOf100) ∧
    (Json.KeepsAbove (rankOf200 + 1) (rankOf200 + 1) ∧ Json.KeepsBelow rankOf200 rankOf200) := by
  decide +kernel

section Limits

variable {rank : Nat} (hfinite : rank < infinityRank)

include hfinite

theorem rereadRank_lt_20_iff : Json.rereadRank rank < rankOf20 ↔ rank < rankOf20 := by
  constructor
  · intro h
    by_contra hge
    have := keeps_limits.1.1.le_rereadRank (Nat.not_lt.1 hge) hfinite
    omega
  · intro h
    have := keeps_limits.1.2.rereadRank_le (Nat.le_sub_one_of_lt h)
    have : 0 < rankOf20 := by decide
    omega

theorem lt_rereadRank_200_iff : rankOf200 < Json.rereadRank rank ↔ rankOf200 < rank := by
  constructor
  · intro h
    by_contra hle
    have := keeps_limits.2.2.2.rereadRank_le (Nat.not_lt.1 hle)
    omega
  · intro h
    have := keeps_limits.2.2.1.le_rereadRank h hfinite
    omega

theorem lt_rereadRank_100_iff (hne : rank ≠ rankOf100 + 1) :
    rankOf100 < Json.rereadRank rank ↔ rankOf100 < rank := by
  constructor
  · intro h
    by_contra hle
    have := keeps_limits.2.1.2.rereadRank_le (Nat.not_lt.1 hle)
    omega
  · intro h
    have := keeps_limits.2.1.1.le_rereadRank (show rankOf100 + 2 ≤ rank by omega) hfinite
    omega

end Limits

/-! ## Factors -/

/-- Limits that a measurement does not cross when it is written and read leave its factor alone. A
negative measurement is below every limit before and after. -/
theorem Adjustment.factor_reread {adjustment : Adjustment} (above below : Nat) {rank : Nat}
    {negative : Bool} (habove : adjustment.above = ofRank false above)
    (hbelow : adjustment.below = ofRank false below)
    (hlimits : above < infinityRank ∧ 0 < below ∧ below < infinityRank)
    (hfinite : rank < infinityRank)
    (hkeepsAbove : negative = false → (above < Json.rereadRank rank ↔ above < rank))
    (hkeepsBelow : Json.rereadRank rank < below ↔ rank < below) :
    adjustment.factor (some (ofRank negative (Json.rereadRank rank))) =
      adjustment.factor (some (ofRank negative rank)) := by
  obtain ⟨hltAbove, hpos, hltBelow⟩ := hlimits
  have hreread := Json.rereadRank_lt hfinite
  unfold Adjustment.factor
  simp only [habove, hbelow]
  cases negative with
  | true =>
    simp only [not_ofRank_lt_true, ofRank_true_lt _ hpos, if_true, if_false]
  | false =>
    simp only [ofRank_lt_iff hltAbove.le hreread.le, ofRank_lt_iff hltAbove.le hfinite.le,
      ofRank_lt_iff hreread.le hltBelow.le, ofRank_lt_iff hfinite.le hltBelow.le, hkeepsAbove rfl,
      hkeepsBelow]

namespace Rules

/-- **The latency that is lost**: the number next above 100. Its text is the only one of a finite
measurement that is read on the other side of a limit of the standard rules. -/
def blurredLatency : Binary64 := ofRank false (rankOf100 + 1)

theorem factor_bandwidth_reread {x : Binary64} (hfinite : x.isFinite = true) :
    standard.bandwidth.factor (some (Json.reread x)) = standard.bandwidth.factor (some x) := by
  obtain ⟨negative, rank, hrank, rfl⟩ := exists_of_isFinite hfinite
  rw [Json.reread_ofRank negative hrank]
  exact Adjustment.factor_reread rankOf200 rankOf20 limits_eq.2.2 limits_eq.1 (by decide) hrank
    (fun _ => lt_rereadRank_200_iff hrank) (rereadRank_lt_20_iff hrank)

theorem factor_latency_reread {x : Binary64} (hfinite : x.isFinite = true)
    (hne : x ≠ blurredLatency) :
    standard.latency.factor (some (Json.reread x)) = standard.latency.factor (some x) := by
  obtain ⟨negative, rank, hrank, rfl⟩ := exists_of_isFinite hfinite
  rw [Json.reread_ofRank negative hrank]
  apply Adjustment.factor_reread rankOf100 rankOf20 limits_eq.2.1 limits_eq.1 (by decide) hrank ?_
    (rereadRank_lt_20_iff hrank)
  rintro rfl
  apply lt_rereadRank_100_iff hrank
  rintro rfl
  exact hne rfl

/-- At the latency that is lost the factor is lost too. -/
theorem factor_blurredLatency :
    standard.latency.factor (some blurredLatency) = standard.latency.aboveFactor ∧
    standard.latency.factor (some (Json.reread blurredLatency)) = 1 := by
  decide +kernel

/-! ## Estimates -/

/-- **Each estimate comes back as it was.** -/
theorem reread_clamp : ∀ base ∈ standard.largestBase :: standard.tiers.map SizeTier.base,
    ∀ x ∈ [standard.bandwidth.aboveFactor, standard.bandwidth.belowFactor, 1],
    ∀ y ∈ [standard.latency.aboveFactor, standard.latency.belowFactor, 1],
      Json.reread (clampChunkSize (base * x * y)) = clampChunkSize (base * x * y) := by
  decide +kernel

theorem reread_estimate (size : Int64) (bandwidth latency : Option Binary64) :
    Json.reread (standard.estimator.estimate size bandwidth latency) =
      standard.estimator.estimate size bandwidth latency := by
  have hbase := standard.baseFor_mem (megabytesOf size)
  have hbandwidth := standard.bandwidth.factor_mem bandwidth
  have hlatency := standard.latency.factor_mem latency
  rw [estimate_eq, product]
  exact reread_clamp _ hbase _ hbandwidth _ hlatency

/-- No base and no bandwidth hides the factor of a high latency. -/
theorem clamp_aboveFactor_ne : ∀ base ∈ standard.largestBase :: standard.tiers.map SizeTier.base,
    ∀ x ∈ [standard.bandwidth.aboveFactor, standard.bandwidth.belowFactor, 1],
      clampChunkSize (base * x * 1) ≠ clampChunkSize (base * x * standard.latency.aboveFactor) := by
  decide +kernel

end Rules

end ChunkSizing
