import ChunkSizing.Proofs.Decimal.Value
import Mathlib.Algebra.Order.Floor.Semifield
import Mathlib.Data.Rat.Floor

/-!
# ChunkSizing.Proofs.Binary64.Arithmetic — operations as one rounding of an exact result.

Every value but the NaN is a sign with a rank (`exists_ofRank`). On finite ranks the product, the
quotient and the conversions are `rankOf` of the exact rational result, and the order of the format
is the order of the ranks. These equations are all that later modules need: none of them looks into
`nearestRank` again.
-/

namespace ChunkSizing.Binary64

/-! ## Values by sign and rank -/

theorem exists_ofRank {x : Binary64} (h : x ≠ nan) :
    ∃ negative rank, rank ≤ infinityRank ∧ x = ofRank negative rank := by
  cases x with
  | nan => exact absurd rfl h
  | signed negative rank =>
    have hle : rank.val ≤ infinityRank := Nat.le_of_lt_succ rank.isLt
    refine ⟨negative, rank.val, hle, ?_⟩
    simp only [ofRank, Nat.min_eq_left hle]

theorem ofRank_ne_nan (negative : Bool) (rank : Nat) : ofRank negative rank ≠ nan :=
  fun h => Binary64.noConfusion h

theorem isFinite_ofRank (negative : Bool) (rank : Nat) :
    (ofRank negative rank).isFinite = decide (rank < infinityRank) := by
  simp only [ofRank, isFinite, decide_eq_decide]
  omega

theorem exists_of_isFinite {x : Binary64} (h : x.isFinite = true) :
    ∃ negative rank, rank < infinityRank ∧ x = ofRank negative rank := by
  have hne : x ≠ nan := by
    rintro rfl
    cases h
  obtain ⟨negative, rank, -, rfl⟩ := exists_ofRank hne
  rw [isFinite_ofRank, decide_eq_true_eq] at h
  exact ⟨negative, rank, h, rfl⟩

theorem isZero_ofRank (negative : Bool) (rank : Nat) :
    (ofRank negative rank).isZero = decide (rank = 0) := by
  have hpos : 0 < infinityRank := by decide
  rw [show (ofRank negative rank).isZero = decide (min rank infinityRank = 0) from rfl,
    decide_eq_decide]
  omega

/-! ## Order -/

section Order

variable {low high : Nat}

/-- Among the positive numbers the rank decides. -/
theorem ofRank_le_iff (hlow : low ≤ infinityRank) (hhigh : high ≤ infinityRank) :
    ofRank false low ≤ ofRank false high ↔ low ≤ high := by
  show decide (((min low infinityRank : ℕ) : ℤ) ≤ (min high infinityRank : ℕ)) = true ↔ _
  rw [decide_eq_true_eq, Nat.min_eq_left hlow, Nat.min_eq_left hhigh, Int.ofNat_le]

theorem ofRank_lt_iff (hlow : low ≤ infinityRank) (hhigh : high ≤ infinityRank) :
    ofRank false low < ofRank false high ↔ low < high := by
  show decide (((min low infinityRank : ℕ) : ℤ) < (min high infinityRank : ℕ)) = true ↔ _
  rw [decide_eq_true_eq, Nat.min_eq_left hlow, Nat.min_eq_left hhigh, Int.ofNat_lt]

/-- A number with a minus sign is below every positive one. -/
theorem ofRank_true_lt (low : Nat) (hhigh : 0 < high) : ofRank true low < ofRank false high := by
  show decide (-((min low infinityRank : ℕ) : ℤ) < (min high infinityRank : ℕ)) = true
  have hpos : 0 < infinityRank := by decide
  rw [decide_eq_true_eq]
  omega

theorem not_ofRank_lt_true (low high : Nat) : ¬ ofRank false high < ofRank true low := by
  show ¬ decide (((min high infinityRank : ℕ) : ℤ) < -(min low infinityRank : ℕ)) = true
  rw [decide_eq_true_eq]
  omega

end Order

/-! ## Conversions -/

theorem ofInt_natCast (n : Nat) : ofInt n = ofRank false (rankOf n) := by
  rw [rankOf_natCast]
  unfold ofInt ofRatio
  rw [Int.natAbs_natCast, decide_eq_false (by omega)]

theorem ofInt_neg_natCast {n : Nat} (h : 0 < n) : ofInt (-n) = ofRank true (rankOf n) := by
  rw [rankOf_natCast]
  unfold ofInt ofRatio
  rw [Int.natAbs_neg, Int.natAbs_natCast, decide_eq_true (by omega)]

/-- A literal is the number nearest to it. -/
theorem ofNat_eq (n : Nat) : (OfNat.ofNat n : Binary64) = ofRank false (rankOf (n : ℚ)) :=
  ofInt_natCast n

theorem ofNat_eq_of_magnitude {n rank : Nat} (h : magnitude rank = n) :
    (OfNat.ofNat n : Binary64) = ofRank false rank := by
  rw [ofNat_eq, ← h, rankOf_magnitude]

theorem zero_eq : (0 : Binary64) = ofRank false 0 :=
  ofNat_eq_of_magnitude (magnitude_zero.trans Nat.cast_zero.symm)

/-- The whole part is a floor that stops at the largest word. -/
theorem toNat_toUInt64 {rank : Nat} (h : rank ≤ infinityRank) :
    (ofRank false rank).toUInt64.toNat = min ⌊magnitude rank⌋₊ (UInt64.size - 1) := by
  have hsize : 0 < UInt64.size := by decide
  unfold magnitude
  rw [Nat.floor_div_eq_div]
  simp only [ofRank, toUInt64, Nat.min_eq_left h]
  exact UInt64.toNat_ofNat_of_lt' (by omega)

/-! ## Products and quotients -/

section Operations

variable {a b : Nat}

theorem mul_ofRank (s t : Bool) (ha : a < infinityRank) (hb : b < infinityRank) :
    ofRank s a * ofRank t b = ofRank (s != t) (rankOf (magnitude a * magnitude b)) := by
  have hexact : rankOf (magnitude a * magnitude b) =
      nearestRank (units a * units b) unitsPerOne := by
    have hne : (unitsPerOne : ℚ) ≠ 0 := by exact_mod_cast unitsPerOne_pos.ne'
    rw [nearestRank_eq_rankOf _ unitsPerOne_pos]
    unfold magnitude
    push_cast
    rw [div_mul_div_comm]
  rw [hexact]
  show mul (ofRank s a) (ofRank t b) = _
  simp only [ofRank, mul, Nat.min_eq_left ha.le, Nat.min_eq_left hb.le, ha.ne, hb.ne, or_self,
    if_false]
  rfl

theorem div_ofRank (s t : Bool) (ha : a < infinityRank) (hb : b < infinityRank) (hpos : 0 < b) :
    ofRank s a / ofRank t b = ofRank (s != t) (rankOf (magnitude a / magnitude b)) := by
  have hunits : 0 < units b := units_zero ▸ units_strictMono hpos
  have hexact : rankOf (magnitude a / magnitude b) =
      nearestRank (units a * unitsPerOne) (units b) := by
    have hne : (unitsPerOne : ℚ) ≠ 0 := by exact_mod_cast unitsPerOne_pos.ne'
    rw [← rankOf_div _ hunits]
    unfold magnitude
    rw [div_div_div_cancel_right₀ hne]
  rw [hexact]
  show div (ofRank s a) (ofRank t b) = _
  simp only [ofRank, div, Nat.min_eq_left ha.le, Nat.min_eq_left hb.le, ha.ne, hb.ne, hpos.ne',
    if_false]
  rfl

end Operations

end ChunkSizing.Binary64
