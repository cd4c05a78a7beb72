import ChunkSizing.Proofs.Binary64.Order
import Mathlib.Algebra.Order.Group.Unbundled.Abs

/-!
# ChunkSizing.Proofs.Binary64.Rounded — the number nearest to an exact value.

`IsRounded q x` says that `x` is `q` rounded to nearest, ties to even, by distances alone: no finite
number is nearer to `q`, and if another one is as near then `x` is the even one of the two. The
midpoints beside a rank make this of `rankOf` (`isRounded_ofRank`), and turning both signs keeps it
(`IsRounded.neg`). Distances do not tell the two zeros apart, so the sign is said beside it.
-/

namespace ChunkSizing.Binary64

variable {q : ℚ} {x y : Binary64}

/-- The last bit of the significand is zero; it is the last bit of the rank. -/
def IsEven : Binary64 → Prop
  | nan => False
  | signed _ rank => rank.val % 2 = 0

/-- **A rational rounded to the nearest number**, and to the even one of two that are as near. -/
structure IsRounded (q : ℚ) (x : Binary64) : Prop where
  isFinite : x.isFinite = true
  near : ∀ y : Binary64, y.isFinite = true → |x.toRat - q| ≤ |y.toRat - q|
  even : ∀ y : Binary64, y.isFinite = true → |x.toRat - q| = |y.toRat - q| →
    y.toRat ≠ x.toRat → x.IsEven

/-! ## Distances of ranks -/

/-- What lies past `low` is farther from `q` than `high` is, if `q` is not below their midpoint; it
is as far at the midpoint only. -/
theorem abs_sub_lt_or_of_midpoint {low high other : ℚ} (hstep : low < high)
    (hmidpoint : low + high ≤ 2 * q) (hother : other ≤ low) :
    |high - q| < |other - q| ∨ (|high - q| = |other - q| ∧ 2 * q = low + high) := by
  rw [abs_of_neg (show other - q < 0 by linarith)]
  rcases hmidpoint.lt_or_eq with habove | htie
  · exact .inl (abs_lt.2 ⟨by linarith, by linarith⟩)
  rcases hother.lt_or_eq with hfar | hnext
  · exact .inl (abs_lt.2 ⟨by linarith, by linarith⟩)
  · rw [abs_of_pos (show 0 < high - q by linarith)]
    exact .inr ⟨by linarith, htie.symm⟩

/-- **Every other rank is farther away** than the one that is rounded to, or as far; then the one
that is rounded to is even. -/
theorem abs_magnitude_rankOf_lt_or (hq : 0 ≤ q) {other : Nat} (hne : other ≠ rankOf q) :
    |magnitude (rankOf q) - q| < |magnitude other - q| ∨
      (|magnitude (rankOf q) - q| = |magnitude other - q| ∧ rankOf q % 2 = 0) := by
  rcases Nat.lt_or_gt_of_ne hne with hlt | hgt
  · obtain ⟨less, hless⟩ := Nat.exists_eq_add_of_lt hlt
    have hmidpoint : magnitude (other + less) + magnitude (other + less + 1) ≤ 2 * q := by
      by_contra hbelow
      have := rankOf_le_of_lt_midpoint hq (not_le.1 hbelow)
      omega
    have hstep : magnitude (other + less) < magnitude (other + less + 1) :=
      magnitude_strictMono (Nat.lt_succ_self _)
    have hother : magnitude other ≤ magnitude (other + less) :=
      magnitude_strictMono.monotone (Nat.le_add_right other less)
    have hfar := abs_sub_lt_or_of_midpoint hstep hmidpoint hother
    rw [← hless] at hfar
    exact hfar.imp_right fun ⟨heq, htie⟩ => ⟨heq, rankOf_of_midpoint (hless ▸ htie)⟩
  · have hmidpoint : 2 * q ≤ magnitude (rankOf q) + magnitude (rankOf q + 1) := by
      by_contra habove
      exact absurd (lt_rankOf_of_midpoint_lt (not_le.1 habove)) (lt_irrefl _)
    have hstep : magnitude (rankOf q) < magnitude (rankOf q + 1) :=
      magnitude_strictMono (Nat.lt_succ_self _)
    have hother : magnitude (rankOf q + 1) ≤ magnitude other :=
      magnitude_strictMono.monotone hgt
    have hfar := abs_sub_lt_or_of_midpoint (q := -q) (neg_lt_neg hstep) (by linarith)
      (neg_le_neg hother)
    rw [← neg_sub', abs_neg, ← neg_sub', abs_neg] at hfar
    refine hfar.imp_right fun ⟨heq, htie⟩ => ⟨heq, ?_⟩
    have htie' : 2 * q = magnitude (rankOf q) + magnitude (rankOf q + 1) := by linarith
    exact rankOf_of_midpoint htie'

theorem abs_magnitude_rankOf_le (hq : 0 ≤ q) (other : Nat) :
    |magnitude (rankOf q) - q| ≤ |magnitude other - q| := by
  by_cases heq : other = rankOf q
  · rw [heq]
  · exact (abs_magnitude_rankOf_lt_or hq heq).elim le_of_lt fun h => h.1.le

/-! ## Turning the sign -/

theorem toRat_neg (x : Binary64) : (-x).toRat = -x.toRat := by
  cases x with
  | nan => rfl
  | signed negative rank =>
    show (if !negative then -magnitude rank else magnitude rank) =
      -(if negative then -magnitude rank else magnitude rank)
    cases negative with
    | false => rfl
    | true => exact (neg_neg _).symm

/-- Both zeros are zero. -/
theorem toRat_ofRank_zero (negative : Bool) : (ofRank negative 0).toRat = 0 := by
  rw [toRat_ofRank negative (Nat.zero_le _), magnitude_zero, neg_zero, ite_self]

theorem isFinite_neg (x : Binary64) : (-x).isFinite = x.isFinite := by
  cases x <;> rfl

theorem neg_neg_eq (x : Binary64) : -(-x) = x := by
  cases x with
  | nan => rfl
  | signed negative rank =>
    show signed (!!negative) rank = signed negative rank
    rw [Bool.not_not]

theorem IsEven.neg (h : x.IsEven) : (-x).IsEven := by
  cases x with
  | nan => exact h
  | signed negative rank => exact h

/-- The distances on the two sides of zero are the same. -/
theorem IsRounded.neg (h : IsRounded q x) : IsRounded (-q) (-x) := by
  have hturn (y : Binary64) : |(-y).toRat - -q| = |y.toRat - q| := by
    rw [toRat_neg, ← neg_sub', abs_neg]
  have hfinite (y : Binary64) (hy : y.isFinite = true) : (-y).isFinite = true := by
    rwa [isFinite_neg]
  refine ⟨hfinite x h.isFinite, fun y hy => ?_, fun y hy heq hne => ?_⟩
  · rw [hturn x, ← neg_neg_eq y, hturn]
    exact h.near (-y) (hfinite y hy)
  · rw [hturn x, ← neg_neg_eq y, hturn] at heq
    refine (h.even (-y) (hfinite y hy) heq ?_).neg
    rw [toRat_neg]
    rintro hsame
    rw [toRat_neg, ← hsame, neg_neg] at hne
    exact hne rfl

/-! ## Rounded values -/

/-- Numbers below zero are no nearer than zero itself. -/
theorem abs_magnitude_zero_sub (hq : 0 ≤ q) : |magnitude 0 - q| = q := by
  rw [magnitude_zero, zero_sub, abs_neg, abs_of_nonneg hq]

theorem abs_neg_magnitude_sub (hq : 0 ≤ q) (rank : Nat) :
    |-magnitude rank - q| = magnitude rank + q := by
  rw [← neg_add', abs_neg, abs_of_nonneg (add_nonneg (magnitude_nonneg rank) hq)]

theorem isRounded_of_nonneg (hq : 0 ≤ q) (hfinite : rankOf q < infinityRank) :
    IsRounded q (ofRank false (rankOf q)) where
  isFinite := (isFinite_ofRank false _).trans (decide_eq_true hfinite)
  near := by
    intro y hy
    obtain ⟨negative, rank, hrank, rfl⟩ := exists_of_isFinite hy
    rw [toRat_ofRank false hfinite.le, toRat_ofRank negative hrank.le]
    cases negative with
    | false => exact abs_magnitude_rankOf_le hq rank
    | true =>
      have hzero := abs_magnitude_rankOf_le hq 0
      rw [abs_magnitude_zero_sub hq] at hzero
      simp only [if_true, Bool.false_eq_true, if_false, abs_neg_magnitude_sub hq]
      linarith [magnitude_nonneg rank]
  even := by
    intro y hy heq hne
    obtain ⟨negative, rank, hrank, rfl⟩ := exists_of_isFinite hy
    rw [toRat_ofRank false hfinite.le, toRat_ofRank negative hrank.le] at heq hne
    have heven (h : rankOf q % 2 = 0) : (ofRank false (rankOf q)).IsEven := by
      show min (rankOf q) infinityRank % 2 = 0
      rwa [Nat.min_eq_left hfinite.le]
    cases negative with
    | false =>
      have hother : rank ≠ rankOf q := fun hsame => hne (congrArg magnitude hsame)
      obtain hlt | ⟨-, h⟩ := abs_magnitude_rankOf_lt_or hq hother
      · exact absurd heq hlt.ne
      · exact heven h
    | true =>
      -- a negative number is as near only if zero is, and zero is another rank
      simp only [if_true, Bool.false_eq_true, if_false, abs_neg_magnitude_sub hq] at heq hne
      have hnonneg := magnitude_nonneg rank
      have hother : 0 ≠ rankOf q := by
        intro hzero
        rw [← hzero] at heq hne
        rw [abs_magnitude_zero_sub hq] at heq
        rw [magnitude_zero] at hne
        exact hne (by linarith)
      obtain hlt | ⟨-, h⟩ := abs_magnitude_rankOf_lt_or hq hother
      · rw [abs_magnitude_zero_sub hq] at hlt
        linarith
      · exact heven h

/-- **The nearest rank makes the nearest number**, for either sign. -/
theorem isRounded_ofRank (negative : Bool) (hq : 0 ≤ q) (hfinite : rankOf q < infinityRank) :
    IsRounded (if negative then -q else q) (ofRank negative (rankOf q)) := by
  have hpositive := isRounded_of_nonneg hq hfinite
  cases negative with
  | false => exact hpositive
  | true => exact hpositive.neg

end ChunkSizing.Binary64
