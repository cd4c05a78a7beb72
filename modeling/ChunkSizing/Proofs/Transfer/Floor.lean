import ChunkSizing.Proofs.Rules.Exact

/-!
# ChunkSizing.Proofs.Transfer.Floor — the bytes of every size.

The bytes of a chunk are one formula for every size that is a number: the floor of the exact
product, cut to the words of 64 bits at both ends (`toNat_chunkBytes_of_ne_nan`). Below `2 ^ 44`
megabytes the cut at the upper end changes nothing, and neither does the rounding of the product.
-/

namespace ChunkSizing

open Binary64

variable {x y : Binary64}

/-! ## The product -/

/-- The product with the bytes of a megabyte, by its rank, which may pass that of infinity. -/
theorem ofRank_mul_bytesPerMegabyte (negative : Bool) {rank : Nat} (h : rank ≤ infinityRank) :
    ofRank negative rank * bytesPerMegabyte = ofRank negative (doubled^[20] rank) := by
  rw [bytesPerMegabyte_eq, mul_ofRank_eq_stretched negative h (by decide) (by decide)]
  rcases Nat.lt_or_eq_of_le h with hlt | rfl
  · rw [stretched_of_lt _ hlt, ofRank_min, magnitude_mul_megabyte, rankOf_magnitude]
  · -- infinity stays infinity, and twenty doublings lead further up
    rw [← ofRank_min negative (doubled^[20] infinityRank)]
    rfl

/-- **The product is exact** as long as it is finite. -/
theorem toRat_mul_bytesPerMegabyte (hx : x ≠ nan) (h : |x.toRat| < 2 ^ 44) :
    (x * bytesPerMegabyte).toRat = x.toRat * 2 ^ 20 := by
  obtain ⟨negative, rank, hrank, rfl⟩ := exists_ofRank hx
  have hsize := abs_toRat_ofRank negative hrank
  have hdoubled : magnitude (doubled^[20] rank) = magnitude rank * 2 ^ 20 := by
    rw [magnitude_iterate_doubled, mul_comm]
    norm_num [twoTo_eq]
  have hword : magnitude ((1023 + 64) * binade) = (twoTo 64 : ℕ) := magnitude_twoTo 64
  have hfinite : doubled^[20] rank < (1023 + 64) * binade := by
    rw [hsize] at h
    rw [← magnitude_strictMono.lt_iff_lt, hdoubled, hword]
    norm_num [twoTo_eq]
    linarith
  have hle : doubled^[20] rank ≤ infinityRank := hfinite.le.trans (by decide)
  rw [ofRank_mul_bytesPerMegabyte negative hrank, toRat_ofRank negative hle,
    toRat_ofRank negative hrank, hdoubled]
  split <;> ring

/-! ## Bytes -/

/-- **The bytes of a chunk, whatever its size.** A size below zero has none, as the floor of a
natural number has it. -/
theorem toNat_chunkBytes_of_ne_nan (hx : x ≠ nan) :
    (chunkBytes x).toNat = min ⌊x.toRat * 2 ^ 20⌋₊ (UInt64.size - 1) := by
  obtain ⟨negative, rank, hrank, rfl⟩ := exists_ofRank hx
  rw [toRat_ofRank negative hrank]
  cases negative with
  | false =>
    rw [toNat_chunkBytes hrank]
    norm_num
  | true =>
    have hnone : chunkBytes (ofRank true rank) = 0 := by
      unfold chunkBytes
      rw [ofRank_mul_bytesPerMegabyte true hrank]
      rfl
    have hfloor : ⌊-magnitude rank * 2 ^ 20⌋₊ = 0 := by
      apply Nat.floor_of_nonpos
      have := magnitude_nonneg rank
      linarith
    rw [hnone, if_pos rfl, hfloor]
    rfl

theorem chunkBytes_nan : chunkBytes nan = 0 := rfl

/-- **Larger chunks have no fewer bytes.** -/
theorem chunkBytes_mono (h : x ≤ y) : chunkBytes x ≤ chunkBytes y := by
  obtain ⟨hx, hy⟩ := ne_nan_of_le h
  rw [le_iff_toRat_le hx hy] at h
  have hproduct : x.toRat * 2 ^ 20 ≤ y.toRat * 2 ^ 20 := by linarith
  rw [UInt64.le_iff_toNat_le, toNat_chunkBytes_of_ne_nan hx, toNat_chunkBytes_of_ne_nan hy]
  exact min_le_min_right _ (Nat.floor_mono hproduct)

theorem toRat_ofInt_44 : (ofInt (2 ^ 44)).toRat = 2 ^ 44 := by
  have hexact : (ofInt (2 ^ 44)).toRat = ((2 ^ 44 : ℕ) : ℚ) := toRat_ofNat (by decide)
  exact_mod_cast hexact

theorem ofInt_44_ne_nan : ofInt (2 ^ 44) ≠ nan := ofNat_ne_nan (2 ^ 44)

/-- **Megabytes in whole bytes.** From zero up to `2 ^ 44` megabytes the product with the bytes of a
megabyte is exact, down to the least size, and its floor is what there is in bytes. From there on,
also at infinity, there are as many bytes as a word can tell; below zero, and of what is no number,
there are none. So a larger size never has fewer bytes. -/
theorem chunkBytes_exact (x : Binary64) :
    let top := ofInt (2 ^ 44)
    (0 ≤ x → x < top → (x * bytesPerMegabyte).toRat = x.toRat * 2 ^ 20 ∧
      ((chunkBytes x).toNat : ℤ) = ⌊x.toRat * 2 ^ 20⌋) ∧
    (top ≤ x → (chunkBytes x).toNat = 2 ^ 64 - 1) ∧
    (x = nan ∨ x < 0 → chunkBytes x = 0) ∧
    ∀ y, x ≤ y → chunkBytes x ≤ chunkBytes y := by
  intro top
  have hzero : (0 : Binary64) ≠ nan := ofNat_ne_nan 0
  have hzeroRat : (0 : Binary64).toRat = 0 := (toRat_ofNat (Nat.zero_le _)).trans Nat.cast_zero
  have hsize : UInt64.size = 2 ^ 64 := rfl
  refine ⟨?_, ?_, ?_, fun y => chunkBytes_mono⟩
  · intro hlow hhigh
    obtain ⟨-, hx⟩ := ne_nan_of_le hlow
    rw [le_iff_toRat_le hzero hx, hzeroRat] at hlow
    rw [lt_iff_toRat_lt hx ofInt_44_ne_nan, toRat_ofInt_44] at hhigh
    have hproduct : 0 ≤ x.toRat * 2 ^ 20 := by positivity
    have hfloor : ⌊x.toRat * 2 ^ 20⌋₊ < 2 ^ 64 := by
      rw [Nat.floor_lt hproduct]
      push_cast
      linarith
    refine ⟨toRat_mul_bytesPerMegabyte hx (by rwa [abs_of_nonneg hlow]), ?_⟩
    rw [toNat_chunkBytes_of_ne_nan hx, Nat.min_eq_left (by omega),
      Int.natCast_floor_eq_floor hproduct]
  · intro hle
    obtain ⟨-, hx⟩ := ne_nan_of_le hle
    rw [le_iff_toRat_le ofInt_44_ne_nan hx, toRat_ofInt_44] at hle
    have hfloor : 2 ^ 64 ≤ ⌊x.toRat * 2 ^ 20⌋₊ := by
      apply Nat.le_floor
      push_cast
      linarith
    rw [toNat_chunkBytes_of_ne_nan hx, Nat.min_eq_right (by omega), hsize]
  · rintro (rfl | hneg)
    · exact chunkBytes_nan
    · obtain ⟨hx, -⟩ := ne_nan_of_lt hneg
      rw [lt_iff_toRat_lt hx hzero, hzeroRat] at hneg
      have hfloor : ⌊x.toRat * 2 ^ 20⌋₊ = 0 := Nat.floor_of_nonpos (by linarith)
      rw [← UInt64.toNat_inj, toNat_chunkBytes_of_ne_nan hx, hfloor]
      rfl

/-- The least size of all has no byte, 5.4 megabytes lose a fraction of one, `2 ^ 44` are one byte
too many for a word, and infinity is cut to it. -/
theorem chunkBytes_exact_at_ends :
    ((chunkBytes (ofRank false 1)).toNat : ℤ) = ⌊(ofRank false 1).toRat * 2 ^ 20⌋ ∧
    ((chunkBytes (Rules.decimal 54 1)).toNat : ℤ) = ⌊(Rules.decimal 54 1).toRat * 2 ^ 20⌋ ∧
    (chunkBytes (ofInt (2 ^ 44))).toNat = 2 ^ 64 - 1 ∧
    (chunkBytes (infinity false)).toNat = 2 ^ 64 - 1 ∧
    chunkBytes (infinity true) = 0 ∧
    chunkBytes (ofRank false 1) ≤ chunkBytes (Rules.decimal 54 1) := by
  obtain ⟨hleast, -, -, hmono⟩ := chunkBytes_exact (ofRank false 1)
  obtain ⟨hwithin, -⟩ := chunkBytes_exact (Rules.decimal 54 1)
  obtain ⟨-, htop, -⟩ := chunkBytes_exact (ofInt (2 ^ 44))
  obtain ⟨-, hinfinity, -⟩ := chunkBytes_exact (infinity false)
  obtain ⟨-, -, hnegative, -⟩ := chunkBytes_exact (infinity true)
  refine ⟨(hleast ?_ ?_).2, (hwithin ?_ ?_).2, htop ?_, hinfinity ?_, hnegative (.inr ?_),
    hmono _ ?_⟩
  all_goals decide +kernel

end ChunkSizing
