import ChunkSizing.Proofs.Binary64.Arithmetic

/-!
# ChunkSizing.Proofs.Binary64.Order — the order of the format is the order of exact values.

`toRat x` is the number that `x` stands for, sign included. Comparisons of the format go by signed
ranks, and magnitudes grow with their ranks, so comparing two values is comparing these numbers
(`le_iff_toRat_le`, `lt_iff_toRat_lt`). A value that is no number takes no part.
-/

namespace ChunkSizing.Binary64

variable {x y : Binary64}

/-- **The exact value.** An infinity counts as `2 ^ 1024`, the magnitude at which rounding
overflows, and so lies beyond every finite number. What is no number has no value; zero stands in
for it. -/
def toRat : Binary64 → ℚ
  | nan => 0
  | signed negative rank => if negative then -magnitude rank else magnitude rank

@[simp]
theorem toRat_ofRank (negative : Bool) {rank : Nat} (h : rank ≤ infinityRank) :
    (ofRank negative rank).toRat = if negative then -magnitude rank else magnitude rank := by
  simp only [ofRank, toRat, Nat.min_eq_left h]

theorem abs_toRat_ofRank (negative : Bool) {rank : Nat} (h : rank ≤ infinityRank) :
    |(ofRank negative rank).toRat| = magnitude rank := by
  rw [toRat_ofRank negative h]
  cases negative with
  | false => exact abs_of_nonneg (magnitude_nonneg rank)
  | true => exact (abs_neg _).trans (abs_of_nonneg (magnitude_nonneg rank))

theorem place_ofRank (negative : Bool) {rank : Nat} (h : rank ≤ infinityRank) :
    (ofRank negative rank).place = some (if negative then -(rank : ℤ) else rank) := by
  simp only [ofRank, place, Nat.min_eq_left h]

/-- Signed magnitudes are ordered as the signed ranks are. -/
theorem signed_le_iff (s t : Bool) (a b : Nat) :
    ((if s then -(a : ℤ) else a) ≤ if t then -(b : ℤ) else b) ↔
      (if s then -magnitude a else magnitude a) ≤ if t then -magnitude b else magnitude b := by
  have ha := magnitude_nonneg a
  have hb := magnitude_nonneg b
  have hle (a b : Nat) : magnitude a ≤ magnitude b ↔ a ≤ b := magnitude_strictMono.le_iff_le
  cases s <;> cases t
  · simp [hle]
  · -- a value that is not negative is at most a negated one only if both are zero
    have hzero (n : Nat) : magnitude n ≤ 0 ↔ n = 0 := by
      rw [← magnitude_zero, hle, Nat.le_zero]
    have hboth : magnitude a ≤ -magnitude b ↔ magnitude a ≤ 0 ∧ magnitude b ≤ 0 := by
      constructor
      · intro h
        constructor <;> linarith
      · rintro ⟨ha', hb'⟩
        linarith
    simp only [Bool.false_eq_true, if_false, if_true, hboth, hzero]
    omega
  · refine iff_of_true ?_ ?_
    · simp only [Bool.false_eq_true, if_false, if_true]
      omega
    · simp only [Bool.false_eq_true, if_false, if_true]
      linarith
  · simp [hle]

/-- **At most** is so for the exact values. -/
theorem le_iff_toRat_le (hx : x ≠ nan) (hy : y ≠ nan) : x ≤ y ↔ x.toRat ≤ y.toRat := by
  obtain ⟨s, a, ha, rfl⟩ := exists_ofRank hx
  obtain ⟨t, b, hb, rfl⟩ := exists_ofRank hy
  rw [toRat_ofRank s ha, toRat_ofRank t hb, ← signed_le_iff]
  show (ofRank s a).isAtMost (ofRank t b) = true ↔ _
  simp only [isAtMost, place_ofRank s ha, place_ofRank t hb, decide_eq_true_eq]

/-- Below means not at least. -/
theorem lt_iff_not_le (hx : x ≠ nan) (hy : y ≠ nan) : x < y ↔ ¬ y ≤ x := by
  obtain ⟨s, a, ha, rfl⟩ := exists_ofRank hx
  obtain ⟨t, b, hb, rfl⟩ := exists_ofRank hy
  show (ofRank s a).isLess (ofRank t b) = true ↔ ¬ (ofRank t b).isAtMost (ofRank s a) = true
  simp only [isLess, isAtMost, place_ofRank s ha, place_ofRank t hb, decide_eq_true_eq, Int.not_le]

/-- **Strictly below** is so for the exact values. -/
theorem lt_iff_toRat_lt (hx : x ≠ nan) (hy : y ≠ nan) : x < y ↔ x.toRat < y.toRat := by
  rw [lt_iff_not_le hx hy, le_iff_toRat_le hy hx, not_le]

/-! ## What is no number -/

theorem not_nan_lt (y : Binary64) : ¬ nan < y := Bool.false_ne_true

theorem not_lt_nan (x : Binary64) : ¬ x < nan := by
  cases x with
  | nan => exact Bool.false_ne_true
  | signed negative rank => exact Bool.false_ne_true

theorem ne_nan_of_le (h : x ≤ y) : x ≠ nan ∧ y ≠ nan := by
  constructor
  · rintro rfl
    exact Bool.false_ne_true h
  · rintro rfl
    cases x with
    | nan => exact Bool.false_ne_true h
    | signed negative rank => exact Bool.false_ne_true h

theorem not_lt_of_le (h : x ≤ y) : ¬ y < x := by
  obtain ⟨hx, hy⟩ := ne_nan_of_le h
  rw [lt_iff_not_le hy hx]
  exact not_not.2 h

end ChunkSizing.Binary64
