import ChunkSizing.Json.Numeral
import ChunkSizing.Proofs.Binary64.Doubling

/-!
# ChunkSizing.Proofs.Json.Scaling — a significand times a power of ten, as the reader computes it.

The reader rounds up to three times: the significand, the power of ten, and their product or
quotient. `scaledRank` is that computation on ranks, and `scale?_ofInt` says that it is what the
reader does; both roundings are in the form that is quick to evaluate. It is monotone in the
significand, and scaling further down never gives more; thresholds need no more than that, since an
exponent leaves only one significand to look at. A significand of 53 bits and a power of ten up to
the twenty-second are exact, and then the result is rounded once (`scaledRank_eq_rankOf`).
-/

namespace ChunkSizing.Json

open Binary64

/-! ## Ranks -/

/-- The rank of a power of ten. -/
def tenRank (exponent : Nat) : Nat := quickRank (Decimal.tenTo exponent * unitsPerOne) 1

/-- The rank of the quotient by a power of ten of at most `10 ^ 308`. -/
def loweredOnce (rank exponent : Nat) : Nat :=
  quickRank (units rank * unitsPerOne) (units (tenRank exponent))

/-- The rank of the quotient by a power of ten, taken in several steps. -/
def lowered (rank exponent : Nat) : Nat :=
  if exponent ≤ 308 then loweredOnce rank exponent
  else lowered (loweredOnce rank 308) (exponent - 308)
termination_by exponent

/-- The rank of the product with a power of ten. -/
def raised (rank exponent : Nat) : Nat :=
  quickRank (units rank * units (tenRank exponent)) unitsPerOne

/-- **The rank that the reader gives to `significand * 10 ^ exponent`.** -/
def scaledRank (significand : Nat) (exponent : Int) : Nat :=
  let rank := quickRank (significand * unitsPerOne) 1
  if exponent < 0 then lowered rank exponent.natAbs else raised rank exponent.natAbs

/-! ## Powers of ten -/

theorem tenRank_eq (exponent : Nat) : tenRank exponent = rankOf (10 ^ exponent) := by
  unfold tenRank
  rw [quickRank_eq, ← rankOf_natCast, Decimal.cast_tenTo]

theorem tenRank_mono : Monotone tenRank := by
  intro low high h
  rw [tenRank_eq, tenRank_eq]
  exact rankOf_mono (pow_le_pow_right₀ (by norm_num) h)

theorem magnitude_tenRank_zero : magnitude (tenRank 0) = 1 := by
  have hunits : units (tenRank 0) = unitsPerOne := by decide +kernel
  unfold magnitude
  rw [hunits, div_self (by exact_mod_cast unitsPerOne_pos.ne')]

theorem tenRank_zero_pos : 0 < tenRank 0 := by
  rw [← magnitude_strictMono.lt_iff_lt, magnitude_zero, magnitude_tenRank_zero]
  exact one_pos

theorem tenRank_pos (exponent : Nat) : 0 < tenRank exponent :=
  Nat.lt_of_lt_of_le tenRank_zero_pos (tenRank_mono (Nat.zero_le exponent))

theorem tenRank_lt {exponent : Nat} (h : exponent ≤ 308) : tenRank exponent < infinityRank :=
  Nat.lt_of_le_of_lt (tenRank_mono h) (by decide +kernel)

theorem powerOfTen_eq (exponent : Nat) : powerOfTen exponent = ofRank false (tenRank exponent) := by
  unfold powerOfTen
  rw [ofDecimal_eq, tenRank_eq]
  unfold Decimal.value
  rw [Nat.cast_one, one_mul, zpow_natCast]

/-! ## One step -/

theorem loweredOnce_eq (rank exponent : Nat) :
    loweredOnce rank exponent = rankOf (magnitude rank / magnitude (tenRank exponent)) := by
  have hunits : 0 < units (tenRank exponent) := units_zero ▸ units_strictMono (tenRank_pos exponent)
  have hne : (unitsPerOne : ℚ) ≠ 0 := by exact_mod_cast unitsPerOne_pos.ne'
  unfold loweredOnce
  rw [quickRank_eq, ← rankOf_div _ hunits]
  unfold magnitude
  rw [div_div_div_cancel_right₀ hne]

theorem raised_eq (rank exponent : Nat) :
    raised rank exponent = rankOf (magnitude rank * magnitude (tenRank exponent)) := by
  unfold raised
  rw [quickRank_eq, nearestRank_eq_rankOf _ unitsPerOne_pos]
  unfold magnitude
  push_cast
  rw [div_mul_div_comm]

/-- A smaller dividend and a larger divisor give no more. -/
theorem loweredOnce_le {low high less more : Nat} (hrank : low ≤ high) (hexponent : less ≤ more) :
    loweredOnce low more ≤ loweredOnce high less := by
  rw [loweredOnce_eq, loweredOnce_eq]
  exact rankOf_mono (div_le_div₀ (magnitude_nonneg _) (magnitude_strictMono.monotone hrank)
    (magnitude_pos (tenRank_pos _)) (magnitude_strictMono.monotone (tenRank_mono hexponent)))

theorem raised_le {low high less more : Nat} (hrank : low ≤ high) (hexponent : less ≤ more) :
    raised low less ≤ raised high more := by
  rw [raised_eq, raised_eq]
  exact rankOf_mono (mul_le_mul (magnitude_strictMono.monotone hrank)
    (magnitude_strictMono.monotone (tenRank_mono hexponent)) (magnitude_nonneg _)
    (magnitude_nonneg _))

theorem loweredOnce_le_self (rank exponent : Nat) : loweredOnce rank exponent ≤ rank := by
  rw [loweredOnce_eq]
  refine rankOf_le (div_le_self (magnitude_nonneg _) ?_)
  rw [← magnitude_tenRank_zero]
  exact magnitude_strictMono.monotone (tenRank_mono (Nat.zero_le _))

/-! ## Several steps -/

theorem lowered_of_le (rank : Nat) {exponent : Nat} (h : exponent ≤ 308) :
    lowered rank exponent = loweredOnce rank exponent := by
  rw [lowered, if_pos h]

theorem lowered_of_lt (rank : Nat) {exponent : Nat} (h : 308 < exponent) :
    lowered rank exponent = lowered (loweredOnce rank 308) (exponent - 308) := by
  rw [lowered, if_neg (Nat.not_le.2 h)]

theorem lowered_le_self (rank exponent : Nat) : lowered rank exponent ≤ rank := by
  induction exponent using Nat.strong_induction_on generalizing rank with
  | _ exponent ih =>
    rcases Nat.lt_or_ge 308 exponent with hlt | hle
    · rw [lowered_of_lt rank hlt]
      exact (ih (exponent - 308) (by omega) _).trans (loweredOnce_le_self rank 308)
    · rw [lowered_of_le rank hle]
      exact loweredOnce_le_self rank exponent

/-- Any number of steps gives at most what one step by less gives. -/
theorem lowered_le_loweredOnce {low high less more : Nat} (hrank : low ≤ high)
    (hexponent : less ≤ more) (hless : less ≤ 308) : lowered low more ≤ loweredOnce high less := by
  rcases Nat.lt_or_ge 308 more with hlt | hle
  · rw [lowered_of_lt low hlt]
    exact (lowered_le_self _ _).trans (loweredOnce_le hrank hless)
  · rw [lowered_of_le low hle]
    exact loweredOnce_le hrank hexponent

theorem lowered_mono {low high : Nat} (exponent : Nat) (h : low ≤ high) :
    lowered low exponent ≤ lowered high exponent := by
  induction exponent using Nat.strong_induction_on generalizing low high with
  | _ exponent ih =>
    rcases Nat.lt_or_ge 308 exponent with hlt | hle
    · rw [lowered_of_lt low hlt, lowered_of_lt high hlt]
      exact ih (exponent - 308) (by omega) (loweredOnce_le h (Nat.le_refl _))
    · rw [lowered_of_le low hle, lowered_of_le high hle]
      exact loweredOnce_le h (Nat.le_refl _)

/-- **Scaling is monotone** in the significand. -/
theorem scaledRank_mono {low high : Nat} (exponent : Int) (h : low ≤ high) :
    scaledRank low exponent ≤ scaledRank high exponent := by
  have hrank : rankOf low ≤ rankOf high := rankOf_mono (by exact_mod_cast h)
  rw [rankOf_natCast, ← quickRank_eq, rankOf_natCast, ← quickRank_eq] at hrank
  unfold scaledRank
  dsimp only
  split
  · exact lowered_mono _ hrank
  · exact raised_le hrank (Nat.le_refl _)

/-! ## Significands of seventeen digits -/

theorem scaledRank_of_neg {significand places : Nat} (h : 0 < places) :
    scaledRank significand (-places) = lowered (rankOf significand) places := by
  unfold scaledRank
  rw [quickRank_eq, ← rankOf_natCast, if_pos (by omega), Int.natAbs_neg, Int.natAbs_natCast]

theorem scaledRank_of_nonneg (significand exponent : Nat) :
    scaledRank significand exponent = raised (rankOf significand) exponent := by
  unfold scaledRank
  rw [quickRank_eq, ← rankOf_natCast, if_neg (by omega), Int.natAbs_natCast]

theorem rankOf_le_tenRank {significand exponent : Nat} (h : significand ≤ 10 ^ exponent) :
    rankOf significand ≤ tenRank exponent := by
  rw [tenRank_eq]
  apply rankOf_mono
  exact_mod_cast h

theorem tenRank_zero_le_rankOf {significand : Nat} (h : 0 < significand) :
    tenRank 0 ≤ rankOf significand := by
  rw [tenRank_eq, pow_zero]
  apply rankOf_mono
  exact_mod_cast h

/-- Far enough below the point nothing reaches one. -/
theorem scaledRank_le_one {significand : Nat} {exponent : Int} (hdigits : significand ≤ 10 ^ 17)
    (hexponent : exponent ≤ -17) : scaledRank significand exponent ≤ tenRank 0 := by
  obtain ⟨places, rfl⟩ : ∃ places : Nat, exponent = -places := ⟨exponent.natAbs, by omega⟩
  rw [scaledRank_of_neg (by omega)]
  calc lowered (rankOf significand) places
      ≤ loweredOnce (tenRank 17) 17 :=
        lowered_le_loweredOnce (rankOf_le_tenRank hdigits) (by omega) (by decide)
    _ = rankOf 1 := by rw [loweredOnce_eq, div_self (magnitude_pos (tenRank_pos 17)).ne']
    _ = tenRank 0 := by rw [tenRank_eq, pow_zero]

/-- Three zeros behind a digit make a thousand. -/
theorem le_scaledRank {significand : Nat} {exponent : Int} (hdigits : 0 < significand)
    (hexponent : 3 ≤ exponent) : tenRank 3 ≤ scaledRank significand exponent := by
  obtain ⟨zeros, rfl⟩ : ∃ zeros : Nat, exponent = zeros := ⟨exponent.natAbs, by omega⟩
  rw [scaledRank_of_nonneg]
  calc tenRank 3 = raised (tenRank 0) 3 := by
        rw [raised_eq, magnitude_tenRank_zero, one_mul, rankOf_magnitude]
    _ ≤ raised (rankOf significand) zeros :=
      raised_le (tenRank_zero_le_rankOf hdigits) (by omega)

/-- The reader stops early at zero; the remaining steps would not change it. -/
theorem lowered_zero (exponent : Nat) : lowered 0 exponent = 0 :=
  Nat.le_zero.1 (lowered_le_self 0 exponent)

theorem scaledRank_zero (exponent : Int) : scaledRank 0 exponent = 0 := by
  rcases Int.lt_or_le exponent 0 with hneg | hnonneg
  · obtain ⟨places, rfl⟩ : ∃ places : Nat, exponent = -places := ⟨exponent.natAbs, by omega⟩
    rw [scaledRank_of_neg (by omega), rankOf_zero, lowered_zero]
  · obtain ⟨zeros, rfl⟩ := Int.eq_ofNat_of_zero_le hnonneg
    rw [scaledRank_of_nonneg, rankOf_zero, raised_eq, magnitude_zero, zero_mul, ← magnitude_zero,
      rankOf_magnitude]

/-- **Finite significands stay finite** up to the last power of ten that leaves them so. -/
theorem scaledRank_lt_of_le {significand : Nat} {exponent : Int} (hdigits : significand ≤ 10 ^ 17)
    (hexponent : exponent ≤ 291) : scaledRank significand exponent < infinityRank := by
  have hrank := rankOf_le_tenRank hdigits
  rcases Int.lt_or_le exponent 0 with hneg | hnonneg
  · obtain ⟨places, rfl⟩ : ∃ places : Nat, exponent = -places := ⟨exponent.natAbs, by omega⟩
    rw [scaledRank_of_neg (by omega)]
    exact Nat.lt_of_le_of_lt ((lowered_le_self _ _).trans hrank) (tenRank_lt (by decide))
  · obtain ⟨zeros, rfl⟩ := Int.eq_ofNat_of_zero_le hnonneg
    rw [scaledRank_of_nonneg]
    calc raised (rankOf significand) zeros ≤ raised (tenRank 17) 291 :=
          raised_le hrank (by omega)
      _ < infinityRank := by decide +kernel

/-! ## Without intermediate rounding -/

theorem scaledRank_zero_right (significand : Nat) :
    scaledRank significand 0 = rankOf significand := by
  have hscaled := scaledRank_of_nonneg significand 0
  rwa [raised_eq, magnitude_tenRank_zero, mul_one, rankOf_magnitude] at hscaled

/-- Powers of ten are exact as long as their powers of five have 53 bits. -/
theorem magnitude_tenRank {exponent : Nat} (h : exponent ≤ 22) :
    magnitude (tenRank exponent) = 10 ^ exponent := by
  have hfive : 5 ^ exponent ≤ 2 ^ 53 :=
    (Nat.pow_le_pow_right (by decide) h).trans (by decide)
  have hexact : magnitude (doubled^[exponent] (rankOf (5 ^ exponent : ℕ))) = 10 ^ exponent := by
    rw [magnitude_iterate_doubled, magnitude_rankOf_natCast hfive, twoTo_eq, ← Nat.cast_mul,
      ← Nat.mul_pow]
    exact Nat.cast_pow 10 exponent
  rw [tenRank_eq, ← hexact, rankOf_magnitude]

/-- **Short significands and small powers of ten are exact**, so the result is rounded once. -/
theorem scaledRank_eq_rankOf {significand : Nat} {exponent : Int} (hdigits : significand ≤ 2 ^ 53)
    (hlow : -22 ≤ exponent) (hhigh : exponent ≤ 22) :
    scaledRank significand exponent = rankOf (significand * 10 ^ exponent) := by
  have hexact := magnitude_rankOf_natCast hdigits
  rcases Int.lt_or_le exponent 0 with hneg | hnonneg
  · obtain ⟨places, rfl⟩ : ∃ places : Nat, exponent = -places := ⟨exponent.natAbs, by omega⟩
    rw [scaledRank_of_neg (by omega), lowered_of_le _ (by omega), loweredOnce_eq, hexact,
      magnitude_tenRank (by omega), zpow_neg, zpow_natCast, div_eq_mul_inv]
  · obtain ⟨zeros, rfl⟩ := Int.eq_ofNat_of_zero_le hnonneg
    rw [scaledRank_of_nonneg, raised_eq, hexact, magnitude_tenRank (by omega), zpow_natCast]

/-! ## The reader's computation -/

theorem scaleDown_ofRank {rank : Nat} (hfinite : rank < infinityRank) (exponent : Nat) :
    scaleDown (ofRank false rank) exponent = ofRank false (lowered rank exponent) := by
  induction exponent using Nat.strong_induction_on generalizing rank with
  | _ exponent ih =>
    have hstep {step : Nat} (hstep : step ≤ 308) :
        ofRank false rank / powerOfTen step = ofRank false (loweredOnce rank step) := by
      rw [powerOfTen_eq, div_ofRank _ _ hfinite (tenRank_lt hstep) (tenRank_pos step),
        loweredOnce_eq]
      rfl
    rw [scaleDown]
    split
    · rename_i hle
      rw [hstep hle, lowered_of_le rank hle]
    rename_i hgt
    rw [isZero_ofRank]
    split
    · rename_i hzero
      rw [of_decide_eq_true hzero, lowered_zero]
    · rw [hstep (Nat.le_refl _), lowered_of_lt rank (Nat.not_le.1 hgt)]
      apply ih (exponent - 308) (by omega)
      exact Nat.lt_of_le_of_lt (loweredOnce_le_self rank 308) hfinite

/-- Too large a power leaves only zero finite. -/
theorem infinityRank_le_scaledRank {significand : Nat} {exponent : Int} (h : 0 < significand)
    (hexponent : 308 < exponent) : infinityRank ≤ scaledRank significand exponent := by
  obtain ⟨zeros, rfl⟩ : ∃ zeros : Nat, exponent = zeros := ⟨exponent.natAbs, by omega⟩
  have hten : infinityRank ≤ tenRank 309 := by
    rw [tenRank_eq]
    exact le_rankOf magnitude_infinityRank_lt.le
  rw [scaledRank_of_nonneg]
  calc infinityRank ≤ tenRank 309 := hten
    _ = raised (tenRank 0) 309 := by
      rw [raised_eq, magnitude_tenRank_zero, one_mul, rankOf_magnitude]
    _ ≤ raised (rankOf significand) zeros := raised_le (tenRank_zero_le_rankOf h) (by omega)

/-- **What the reader computes** is the number of `scaledRank`, if that is finite. -/
theorem scale?_ofInt {significand : Nat} (hword : significand < UInt64.size) (exponent : Int) :
    scale? (ofInt significand) exponent =
      if scaledRank significand exponent < infinityRank then
        some (ofRank false (scaledRank significand exponent))
      else none := by
  have hrank := rankOf_lt_of_word hword
  rw [ofInt_natCast]
  unfold scale?
  rcases Int.lt_or_le exponent 0 with hneg | hnonneg
  · obtain ⟨places, rfl⟩ : ∃ places : Nat, exponent = -places := ⟨exponent.natAbs, by omega⟩
    have hfinite : lowered (rankOf significand) places < infinityRank :=
      Nat.lt_of_le_of_lt (lowered_le_self _ _) hrank
    rw [if_pos hneg, scaleDown_ofRank hrank, scaledRank_of_neg (by omega), Int.natAbs_neg,
      Int.natAbs_natCast, if_pos hfinite]
  obtain ⟨zeros, rfl⟩ := Int.eq_ofNat_of_zero_le hnonneg
  rw [if_neg (Int.not_lt.2 hnonneg)]
  split
  · rename_i hle
    have hproduct : ofRank false (rankOf significand) * powerOfTen zeros =
        ofRank false (raised (rankOf significand) zeros) := by
      rw [powerOfTen_eq, mul_ofRank _ _ hrank (tenRank_lt (by omega)), raised_eq]
      rfl
    rw [scaledRank_of_nonneg, Int.natAbs_natCast, hproduct]
    simp only [isFinite_ofRank, decide_eq_true_eq]
  · rename_i hgt
    rw [isZero_ofRank]
    rcases Nat.eq_zero_or_pos significand with rfl | hpos
    · rw [scaledRank_zero, rankOf_zero]
      rfl
    · have hinfinite := infinityRank_le_scaledRank hpos (Int.not_le.1 hgt)
      have hne : rankOf significand ≠ 0 :=
        (Nat.lt_of_lt_of_le tenRank_zero_pos (tenRank_zero_le_rankOf hpos)).ne'
      rw [decide_eq_false hne, if_neg (Nat.not_lt.2 hinfinite)]
      rfl

end ChunkSizing.Json
