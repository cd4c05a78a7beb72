import ChunkSizing.Proofs.Json.Reread
import ChunkSizing.Proofs.Json.NumberText
import ChunkSizing.Rules

/-!
# ChunkSizing.Proofs.Rules.Range — the range of chunk sizes, also after it was written and read.

Whatever a set of rules multiplies, clamping lands between the least and the greatest chunk size
(`exists_rank_of_clamp`); not even a product that is no number escapes. No number of that range
comes back from its text outside of it (`InRange.rereadRank`), and the bytes of a chunk follow from
the range alone.
-/

namespace ChunkSizing

open Binary64

/-- The rank of the least chunk size. -/
abbrev leastRank : Nat := 0x4010000000000000

/-- The rank of the greatest chunk size. -/
abbrev greatestRank : Nat := 0x4070000000000000

/-- A rank between those of the least and the greatest chunk size. -/
structure InRange (rank : Nat) : Prop where
  least_le : leastRank ≤ rank
  le_greatest : rank ≤ greatestRank

theorem InRange.lt {rank : Nat} (h : InRange rank) : rank < infinityRank :=
  Nat.lt_of_le_of_lt h.le_greatest (by decide)

theorem magnitude_leastRank : magnitude leastRank = (4 : ℕ) := magnitude_twoTo 2

theorem magnitude_greatestRank : magnitude greatestRank = (256 : ℕ) := magnitude_twoTo 8

theorem leastChunkSize_eq : leastChunkSize = ofRank false leastRank :=
  ofNat_eq_of_magnitude magnitude_leastRank

theorem greatestChunkSize_eq : greatestChunkSize = ofRank false greatestRank :=
  ofNat_eq_of_magnitude magnitude_greatestRank

/-! ## Clamping -/

section Clamping

variable {low high : Nat}

theorem least_ofRank (hlow : low ≤ infinityRank) (hhigh : high ≤ infinityRank) :
    (ofRank false low).least (ofRank false high) = ofRank false (min low high) := by
  unfold least
  rw [if_neg (ofRank_ne_nan false low)]
  simp only [ofRank_lt_iff hhigh hlow]
  split
  · rw [Nat.min_eq_right (by omega)]
  · rw [Nat.min_eq_left (by omega)]

theorem greatest_ofRank (hlow : low ≤ infinityRank) (hhigh : high ≤ infinityRank) :
    (ofRank false low).greatest (ofRank false high) = ofRank false (max low high) := by
  unfold greatest
  rw [if_neg (ofRank_ne_nan false low)]
  simp only [ofRank_lt_iff hlow hhigh]
  split
  · rw [Nat.max_eq_right (by omega)]
  · rw [Nat.max_eq_left (by omega)]

/-- **Clamping lands in the range**, from every value. -/
theorem exists_rank_of_clamp (x : Binary64) :
    ∃ rank, InRange rank ∧ clampChunkSize x = ofRank false rank := by
  unfold clampChunkSize
  rw [leastChunkSize_eq, greatestChunkSize_eq]
  by_cases hnan : x = nan
  -- the lesser of two takes the number, so the clamp begins with the greatest size
  · subst hnan
    refine ⟨greatestRank, ⟨by decide, Nat.le_refl _⟩, ?_⟩
    show (ofRank false greatestRank).greatest (ofRank false leastRank) = _
    rw [greatest_ofRank (by decide) (by decide)]
    rfl
  obtain ⟨negative, rank, hrank, rfl⟩ := exists_ofRank hnan
  cases negative with
  | true =>
    refine ⟨leastRank, ⟨Nat.le_refl _, by decide⟩, ?_⟩
    unfold least greatest
    rw [if_neg hnan, if_neg (not_ofRank_lt_true rank greatestRank), if_neg hnan,
      if_pos (ofRank_true_lt rank (by decide))]
  | false =>
    refine ⟨max (min rank greatestRank) leastRank, ⟨Nat.le_max_right _ _, ?_⟩, ?_⟩
    · exact Nat.max_le.2 ⟨Nat.min_le_right _ _, by decide⟩
    · rw [least_ofRank hrank (by decide),
        greatest_ofRank ((Nat.min_le_left _ _).trans hrank) (by decide)]

end Clamping

/-! ## Written and read -/

/-- Neither end of the range is crossed. -/
theorem keeps_range : Json.KeepsAbove leastRank leastRank ∧
    Json.KeepsBelow greatestRank greatestRank := by
  decide +kernel

namespace InRange

variable {rank : Nat}

/-- **The range survives** being written and read. -/
theorem rereadRank (h : InRange rank) : InRange (Json.rereadRank rank) where
  least_le := keeps_range.1.le_rereadRank h.least_le h.lt
  le_greatest := keeps_range.2.rereadRank_le h.le_greatest

theorem four_le (h : InRange rank) : 4 ≤ ofRank false rank := by
  rw [show (4 : Binary64) = ofRank false leastRank from leastChunkSize_eq]
  exact (ofRank_le_iff (by decide) h.lt.le).2 h.least_le

theorem le_256 (h : InRange rank) : ofRank false rank ≤ 256 := by
  rw [show (256 : Binary64) = ofRank false greatestRank from greatestChunkSize_eq]
  exact (ofRank_le_iff h.lt.le (by decide)).2 h.le_greatest

end InRange

/-! ## Bytes -/

/-- The rank of a megabyte. -/
abbrev megabyteRank : Nat := 0x4130000000000000

theorem magnitude_megabyteRank : magnitude megabyteRank = (1048576 : ℕ) := magnitude_twoTo 20

theorem bytesPerMegabyte_eq : bytesPerMegabyte = ofRank false megabyteRank :=
  ofNat_eq_of_magnitude magnitude_megabyteRank

/-- The range in bytes, before it is cut to a whole number. -/
theorem magnitude_product_mem_range {rank : Nat} (h : InRange rank) :
    rankOf (magnitude rank * magnitude megabyteRank) < infinityRank ∧
    (4194304 : ℕ) ≤ magnitude (rankOf (magnitude rank * magnitude megabyteRank)) ∧
    magnitude (rankOf (magnitude rank * magnitude megabyteRank)) ≤ (268435456 : ℕ) := by
  have hmono := magnitude_strictMono.monotone
  have hleastBytes : magnitude 0x4150000000000000 = (4194304 : ℕ) := magnitude_twoTo 22
  have hgreatestBytes : magnitude 0x41b0000000000000 = (268435456 : ℕ) := magnitude_twoTo 28
  have hlow : 0x4150000000000000 ≤ rankOf (magnitude rank * magnitude megabyteRank) := by
    apply le_rankOf
    have := hmono h.least_le
    rw [hleastBytes, magnitude_megabyteRank]
    rw [magnitude_leastRank] at this
    push_cast at this ⊢
    linarith
  have hhigh : rankOf (magnitude rank * magnitude megabyteRank) ≤ 0x41b0000000000000 := by
    apply rankOf_le
    have := hmono h.le_greatest
    rw [hgreatestBytes, magnitude_megabyteRank]
    rw [magnitude_greatestRank] at this
    push_cast at this ⊢
    linarith
  exact ⟨Nat.lt_of_le_of_lt hhigh (by decide), hleastBytes ▸ hmono hlow,
    hgreatestBytes ▸ hmono hhigh⟩

/-- **The bytes of a chunk** of the range. -/
theorem chunkBytes_mem_range {rank : Nat} (h : InRange rank) :
    4194304 ≤ chunkBytes (ofRank false rank) ∧ chunkBytes (ofRank false rank) ≤ 268435456 := by
  obtain ⟨hfinite, hlow, hhigh⟩ := magnitude_product_mem_range h
  have hbytes : (chunkBytes (ofRank false rank)).toNat =
      min ⌊magnitude (rankOf (magnitude rank * magnitude megabyteRank))⌋₊ (UInt64.size - 1) := by
    unfold chunkBytes
    rw [bytesPerMegabyte_eq, mul_ofRank false false h.lt (by decide)]
    exact toNat_toUInt64 hfinite.le
  -- both ends are whole, and below them the cut to 64 bits changes nothing
  have hfloorLow := Nat.le_floor hlow
  have hfloorHigh := Nat.floor_le_of_le hhigh
  have hsize : UInt64.size = 18446744073709551616 := rfl
  rw [UInt64.le_iff_toNat_le, UInt64.le_iff_toNat_le, hbytes]
  show 4194304 ≤ _ ∧ _ ≤ 268435456
  omega

end ChunkSizing
