import ChunkSizing.Proofs.Binary64.Doubling
import ChunkSizing.Proofs.Rules.Range

/-!
# ChunkSizing.Proofs.Transfer.Bytes — a chunk size in whole bytes.

The product with the bytes of a megabyte rounds nothing away, because it only doubles twenty times.
So the bytes of a chunk are the floor of the exact product for every size that is not negative, up
to the largest word (`toNat_chunkBytes`). Usable advice is a positive finite size, and it is a byte
at least exactly from `2 ^ -20` on (`one_le_chunkBytes_iff`).
-/

namespace ChunkSizing

open Binary64

namespace Binary64

/-- Infinity is beyond every word. -/
theorem size_le_magnitude_infinityRank : ((UInt64.size : ℕ) : ℚ) ≤ magnitude infinityRank := by
  have hword : magnitude ((1023 + 64) * binade) = (UInt64.size : ℕ) := magnitude_twoTo 64
  rw [← hword]
  exact magnitude_strictMono.monotone (by decide)

/-- The whole part, also of a rank past the last one. -/
theorem toNat_toUInt64_ofRank (rank : Nat) :
    (ofRank false rank).toUInt64.toNat = min ⌊magnitude rank⌋₊ (UInt64.size - 1) := by
  rcases Nat.le_total rank infinityRank with hle | hge
  · exact toNat_toUInt64 hle
  · have hinfinity := toNat_toUInt64 (Nat.le_refl infinityRank)
    have hfloor := Nat.le_floor size_le_magnitude_infinityRank
    have hmono : ⌊magnitude infinityRank⌋₊ ≤ ⌊magnitude rank⌋₊ :=
      Nat.floor_mono (magnitude_strictMono.monotone hge)
    rw [ofRank_of_le false hge, infinity, hinfinity]
    omega

end Binary64

/-! ## The exact floor -/

theorem magnitude_mul_megabyte (rank : Nat) :
    magnitude rank * magnitude megabyteRank = magnitude (doubled^[20] rank) := by
  rw [magnitude_iterate_doubled, magnitude_megabyteRank, mul_comm]
  rfl

/-- **The bytes of a chunk are an exact floor**, up to the largest word. -/
theorem toNat_chunkBytes {rank : Nat} (hrank : rank ≤ infinityRank) :
    (chunkBytes (ofRank false rank)).toNat =
      min ⌊magnitude rank * (1048576 : ℕ)⌋₊ (UInt64.size - 1) := by
  unfold chunkBytes
  rw [bytesPerMegabyte_eq, ← magnitude_megabyteRank, magnitude_mul_megabyte]
  rcases Nat.lt_or_eq_of_le hrank with hlt | rfl
  · rw [mul_ofRank false false hlt (by decide), magnitude_mul_megabyte, rankOf_magnitude]
    exact toNat_toUInt64_ofRank _
  · -- infinity times a megabyte is infinity, and twenty doublings lead further up
    have hproduct : ofRank false infinityRank * ofRank false megabyteRank =
        ofRank false (doubled^[20] infinityRank) := by
      decide
    rw [hproduct]
    exact toNat_toUInt64_ofRank _

/-! ## Usable advice -/

/-- **Advice is usable** exactly if it is a positive finite number. -/
theorem Advice.check_eq_ok_iff (advice : Advice) : advice.check = .ok () ↔
    ∃ rank, 0 < rank ∧ rank < infinityRank ∧ advice.chunkSize = ofRank false rank := by
  obtain ⟨size⟩ := advice
  unfold check
  constructor
  · intro h
    split at h
    · rename_i hcheck
      obtain ⟨hfinite, hpositive⟩ := hcheck
      obtain ⟨negative, rank, hrank, rfl⟩ := exists_of_isFinite hfinite
      cases negative with
      | true =>
        -- neither a negative number nor the negative zero is above zero
        refine absurd ?_ hpositive
        show decide (-((min rank infinityRank : ℕ) : ℤ) ≤ _) = true
        rw [decide_eq_true_eq]
        exact Int.neg_natCast_le_natCast _ _
      | false =>
        rw [zero_eq, ofRank_le_iff hrank.le (by decide)] at hpositive
        exact ⟨rank, Nat.not_le.1 hpositive, hrank, rfl⟩
    · cases h
  · rintro ⟨rank, hpos, hrank, hsize⟩
    rw [if_pos]
    show size.isFinite = true ∧ ¬ size ≤ 0
    rw [show size = ofRank false rank from hsize, zero_eq, ofRank_le_iff hrank.le (by decide),
      isFinite_ofRank]
    exact ⟨decide_eq_true hrank, Nat.not_le.2 hpos⟩

/-- Advice of the range is usable. -/
theorem InRange.check {rank : Nat} (h : InRange rank) :
    Advice.check ⟨ofRank false rank⟩ = .ok () :=
  (Advice.check_eq_ok_iff _).2 ⟨rank, Nat.lt_of_lt_of_le (by decide) h.least_le, h.lt, rfl⟩

/-- One byte, in megabytes. -/
def oneByte : Binary64 := 1 / bytesPerMegabyte

/-- The rank of one byte in megabytes, twenty binades below one. -/
abbrev byteRank : Nat := 0x3eb0000000000000

theorem magnitude_byteRank : magnitude byteRank * (1048576 : ℕ) = 1 := by
  have hone : doubled^[20] byteRank = (1023 + 0) * binade := by decide
  rw [← magnitude_megabyteRank, magnitude_mul_megabyte, hone, magnitude_twoTo 0]
  exact Nat.cast_one

theorem oneByte_eq : oneByte = ofRank false byteRank := by
  have hone : (1 : Binary64) = ofRank false ((1023 + 0) * binade) :=
    ofNat_eq_of_magnitude (magnitude_twoTo 0)
  have hquotient : magnitude ((1023 + 0) * binade) / magnitude megabyteRank =
      magnitude byteRank := by
    rw [magnitude_twoTo 0, magnitude_megabyteRank, eq_comm]
    exact eq_div_of_mul_eq (by norm_num) (magnitude_byteRank.trans Nat.cast_one.symm)
  unfold oneByte
  rw [bytesPerMegabyte_eq, hone, div_ofRank false false (by decide) (by decide) (by decide),
    hquotient, rankOf_magnitude]
  rfl

/-- **Usable advice in whole bytes**: from `2 ^ -20` megabytes on it is a byte at least, and below
that it is none. -/
theorem Advice.one_le_chunkBytes_iff {advice : Advice} (h : advice.check = .ok ()) :
    1 ≤ chunkBytes advice.chunkSize ↔ oneByte ≤ advice.chunkSize := by
  obtain ⟨rank, -, hrank, hsize⟩ := advice.check_eq_ok_iff.1 h
  have hscale : (0 : ℚ) < (1048576 : ℕ) := by norm_num
  have hword : 1 ≤ UInt64.size - 1 := by decide
  have hbytes := toNat_chunkBytes hrank.le
  rw [hsize, oneByte_eq, ofRank_le_iff (by decide) hrank.le, UInt64.le_iff_toNat_le, hbytes]
  calc 1 ≤ min ⌊magnitude rank * (1048576 : ℕ)⌋₊ (UInt64.size - 1)
      ↔ 1 ≤ ⌊magnitude rank * (1048576 : ℕ)⌋₊ := by omega
    _ ↔ 1 ≤ magnitude rank * (1048576 : ℕ) := Nat.one_le_floor_iff _
    _ ↔ magnitude byteRank * (1048576 : ℕ) ≤ magnitude rank * (1048576 : ℕ) := by
      rw [magnitude_byteRank]
    _ ↔ magnitude byteRank ≤ magnitude rank := mul_le_mul_iff_of_pos_right hscale
    _ ↔ byteRank ≤ rank := magnitude_strictMono.le_iff_le

end ChunkSizing
