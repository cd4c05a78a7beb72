import ChunkSizing.Proofs.Rules.Exact

/-!
# ChunkSizing.Proofs.Rules.Standard — advised bytes, and what the standard rules narrow down.

Every set of rules advises between 4 and 256 megabytes, so the bytes of a chunk have bounds that
hold whatever the rules are (`bytesFor_mem_range`). The standard rules know four bases and nine
pairs of factors: their greatest product stays below 256 megabytes, and beyond their last tier the
least one is `128 * 0.75 * 0.9` (`standard_bytesFor_le`, `le_standard_bytesFor`).
-/

namespace ChunkSizing

open Binary64

namespace Rules

/-- The bytes of a chunk that rules advise. -/
def bytesFor (rules : Rules) (transfer : Transfer) : UInt64 :=
  chunkBytes (rules.estimator.advise transfer).chunkSize

theorem bytesFor_eq (rules : Rules) (transfer : Transfer) :
    rules.bytesFor transfer = chunkBytes (clampChunkSize
      (rules.baseFor (megabytesOf transfer.size) * rules.bandwidth.factor transfer.bandwidth *
        rules.latency.factor transfer.latency)) :=
  rfl

/-- **Advised bytes under any rules.** -/
theorem bytesFor_mem_range (rules : Rules) (transfer : Transfer) :
    4194304 ≤ (rules.bytesFor transfer).toNat ∧ (rules.bytesFor transfer).toNat ≤ 268435456 := by
  obtain ⟨rank, hrange, hclamp⟩ := exists_rank_of_clamp
    (rules.baseFor (megabytesOf transfer.size) * rules.bandwidth.factor transfer.bandwidth *
      rules.latency.factor transfer.latency)
  obtain ⟨hlow, hhigh⟩ := chunkBytes_mem_range hrange
  rw [bytesFor_eq, hclamp]
  exact ⟨UInt64.le_iff_toNat_le.1 hlow, UInt64.le_iff_toNat_le.1 hhigh⟩

/-! ## The standard rules -/

/-- No estimate of the standard rules is above 240 megabytes. -/
theorem chunkBytes_clamp_le : ∀ base ∈ standard.largestBase :: standard.tiers.map SizeTier.base,
    ∀ x ∈ [standard.bandwidth.aboveFactor, standard.bandwidth.belowFactor, 1],
    ∀ y ∈ [standard.latency.aboveFactor, standard.latency.belowFactor, 1],
      (chunkBytes (clampChunkSize (base * x * y))).toNat ≤ 251658240 := by
  decide +kernel

/-- No estimate from the largest base is below 86.4 megabytes. -/
theorem le_chunkBytes_clamp :
    ∀ x ∈ [standard.bandwidth.aboveFactor, standard.bandwidth.belowFactor, 1],
    ∀ y ∈ [standard.latency.aboveFactor, standard.latency.belowFactor, 1],
      90596966 ≤ (chunkBytes (clampChunkSize (standard.largestBase * x * y))).toNat := by
  decide +kernel

theorem standard_bytesFor_le (transfer : Transfer) :
    (standard.bytesFor transfer).toNat ≤ 251658240 := by
  rw [bytesFor_eq]
  apply chunkBytes_clamp_le
  · exact baseFor_mem _ _
  · exact Adjustment.factor_mem _ _
  · exact Adjustment.factor_mem _ _

/-! ## Beyond the last tier -/

theorem baseFor_of_gt {size : Int64} (h : 10737418240 < size.toInt) :
    standard.baseFor (megabytesOf size) = standard.largestBase := by
  have hfirst : ¬ size.toInt ≤ 104857600 := by omega
  have hsecond : ¬ size.toInt ≤ 1073741824 := by omega
  have hthird : ¬ size.toInt ≤ 10737418240 := by omega
  rw [standard_baseFor, standardBase, if_neg hfirst, if_neg hsecond, if_neg hthird]
  rfl

/-- **Bytes beyond the last tier.** -/
theorem le_standard_bytesFor {transfer : Transfer} (h : 10737418240 < transfer.size.toInt) :
    90596966 ≤ (standard.bytesFor transfer).toNat := by
  rw [bytesFor_eq, baseFor_of_gt h]
  apply le_chunkBytes_clamp
  · exact Adjustment.factor_mem _ _
  · exact Adjustment.factor_mem _ _

end Rules

end ChunkSizing
