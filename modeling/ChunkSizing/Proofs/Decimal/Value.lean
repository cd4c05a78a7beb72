import ChunkSizing.Proofs.Binary64.Magnitude
import Mathlib.Algebra.Order.Field.Power
import Mathlib.Data.Nat.Cast.Field
import Mathlib.Tactic.IntervalCases

/-!
# ChunkSizing.Proofs.Decimal.Value — what a decimal denotes, and its correctly rounded reading.

`Decimal.value` is the exact rational value. Its leading exponent brackets it between two powers of
ten, trimming keeps it, and `Binary64.ofDecimal` is the rank nearest to it, also where the exponent
alone settles the reading.
-/

namespace ChunkSizing

namespace Decimal

/-- The exact value. -/
def value (d : Decimal) : ℚ := d.digits * 10 ^ d.exponent

theorem cast_tenTo (exponent : Nat) : (tenTo exponent : ℚ) = 10 ^ exponent := by
  rw [show tenTo exponent = 10 ^ exponent from rfl]
  push_cast
  rfl

theorem tenTo_zero : tenTo 0 = 1 := rfl

theorem value_nonneg (d : Decimal) : 0 ≤ d.value :=
  mul_nonneg (Nat.cast_nonneg _) (by positivity)

/-- The two halves of the value that integer arithmetic works with. -/
theorem value_eq_div (d : Decimal) : d.value = d.numerator / d.denominator := by
  obtain ⟨digits, exponent⟩ := d
  unfold value numerator denominator tenTo
  rcases Int.le_total 0 exponent with h | h
  · obtain ⟨n, rfl⟩ := Int.eq_ofNat_of_zero_le h
    simp
  · obtain ⟨n, rfl⟩ := Int.exists_eq_neg_ofNat h
    simp [div_eq_mul_inv]

theorem denominator_pos (d : Decimal) : 0 < d.denominator := Nat.pow_pos (by decide)

/-! ## The digits -/

theorem digits_lt (d : Decimal) : d.digits < 10 ^ d.written.length :=
  (Nat.length_toDigits_le_iff (by decide) Nat.length_toDigits_pos).1 (Nat.le_refl _)

theorem written_length_pos (d : Decimal) : 0 < d.written.length := Nat.length_toDigits_pos

theorem written_length_le_iff (d : Decimal) {k : Nat} (hk : 0 < k) :
    d.written.length ≤ k ↔ d.digits < 10 ^ k :=
  Nat.length_toDigits_le_iff (by decide) hk

theorem le_digits {d : Decimal} (hne : d.digits ≠ 0) :
    10 ^ (d.written.length - 1) ≤ d.digits := by
  by_contra hlt
  rcases Nat.eq_zero_or_pos (d.written.length - 1) with hzero | hpos
  · rw [hzero] at hlt
    omega
  · have := (written_length_le_iff d hpos).2 (Nat.not_le.1 hlt)
    omega

/-- Only zero begins with a zero. -/
theorem head?_toDigits_ne {n : Nat} (h : 0 < n) : (Nat.toDigits 10 n).head? ≠ some '0' := by
  induction n using Nat.strong_induction_on with
  | _ n ih =>
    by_cases hlt : n < 10
    · rw [Nat.toDigits_of_lt_base hlt]
      interval_cases n <;> decide
    · rw [Nat.toDigits_of_base_le (by decide) (Nat.not_lt.1 hlt),
        List.head?_append_of_ne_nil _ (List.ne_nil_of_length_pos Nat.length_toDigits_pos)]
      exact ih (n / 10) (by omega) (by omega)

theorem head?_written_ne {d : Decimal} (h : d.digits ≠ 0) : d.written.head? ≠ some '0' :=
  head?_toDigits_ne (Nat.pos_iff_ne_zero.2 h)

/-- Only a multiple of ten ends with a zero. -/
theorem getLast?_written_ne {d : Decimal} (h : d.digits % 10 ≠ 0) :
    d.written.getLast? ≠ some '0' := by
  have hlast {digit : Nat} (hlt : digit < 10) (hne : digit ≠ 0) : digit.digitChar ≠ '0' := by
    interval_cases digit <;> first | exact absurd rfl hne | decide
  unfold written
  rcases Nat.lt_or_ge d.digits 10 with hlt | hge
  · rw [Nat.toDigits_of_lt_base hlt, List.getLast?_singleton]
    exact fun heq => hlast hlt (by omega) (Option.some.inj heq)
  · rw [Nat.toDigits_of_base_le (by decide) hge, List.getLast?_concat]
    exact fun heq => hlast (Nat.mod_lt _ (by decide)) h (Option.some.inj heq)

/-- The value has the leading exponent of its digits. -/
theorem le_value {d : Decimal} (hne : d.digits ≠ 0) : (10 : ℚ) ^ d.leading ≤ d.value := by
  have hpos := written_length_pos d
  have hdigits : ((10 : ℚ) ^ (d.written.length - 1)) ≤ d.digits := by exact_mod_cast le_digits hne
  have hleading : d.leading = ((d.written.length - 1 : ℕ) : ℤ) + d.exponent := by
    unfold leading
    omega
  rw [hleading, zpow_add₀ (by norm_num), zpow_natCast]
  exact mul_le_mul_of_nonneg_right hdigits (by positivity)

theorem value_lt (d : Decimal) : d.value < (10 : ℚ) ^ (d.leading + 1) := by
  have hdigits : (d.digits : ℚ) < (10 : ℚ) ^ d.written.length := by exact_mod_cast digits_lt d
  have hleading : d.leading + 1 = (d.written.length : ℤ) + d.exponent := by
    unfold leading
    omega
  rw [hleading, zpow_add₀ (by norm_num), zpow_natCast]
  exact mul_lt_mul_of_pos_right hdigits (by positivity)

/-! ## Trimming -/

/-- Zeros at the end of the digits of `n`. -/
def zerosAtEnd (n : Nat) : Nat := ((Nat.toDigits 10 n).reverse.takeWhile (· == '0')).length

theorem zerosAtEnd_of_lt {n : Nat} (hpos : 0 < n) (hlt : n < 10) : zerosAtEnd n = 0 := by
  unfold zerosAtEnd
  rw [Nat.toDigits_of_lt_base hlt]
  interval_cases n <;> rfl

theorem zerosAtEnd_of_le {n : Nat} (hle : 10 ≤ n) :
    zerosAtEnd n = if n % 10 = 0 then zerosAtEnd (n / 10) + 1 else 0 := by
  unfold zerosAtEnd
  rw [Nat.toDigits_of_base_le (by decide) hle, List.reverse_append, List.reverse_singleton,
    List.singleton_append, List.takeWhile_cons]
  have hmod := Nat.mod_lt n (show 10 > 0 by decide)
  have hzero : ((n % 10).digitChar == '0') = decide (n % 10 = 0) := by
    interval_cases n % 10 <;> rfl
  rw [hzero]
  by_cases h : n % 10 = 0 <;> simp [h]

/-- What trimming takes away is a factor. -/
theorem tenTo_zerosAtEnd_dvd (n : Nat) : tenTo (zerosAtEnd n) ∣ n := by
  induction n using Nat.strong_induction_on with
  | _ n ih =>
    rcases Nat.eq_zero_or_pos n with rfl | hpos
    · exact Nat.dvd_zero _
    by_cases hlt : n < 10
    · rw [zerosAtEnd_of_lt hpos hlt]
      exact Nat.one_dvd _
    · rw [zerosAtEnd_of_le (by omega)]
      split
      · rename_i hmod
        obtain ⟨factor, hfactor⟩ := ih (n / 10) (by omega)
        refine ⟨factor, ?_⟩
        have hsplit : tenTo (zerosAtEnd (n / 10) + 1) = 10 * tenTo (zerosAtEnd (n / 10)) :=
          Nat.pow_succ'
        rw [hsplit, Nat.mul_assoc, ← hfactor]
        omega
      · exact Nat.one_dvd _

theorem trimmed_eq (d : Decimal) :
    d.trimmed = ⟨d.digits / tenTo (zerosAtEnd d.digits), d.exponent + zerosAtEnd d.digits⟩ := rfl

/-- **Trimming keeps the value.** -/
theorem value_trimmed (d : Decimal) : d.trimmed.value = d.value := by
  have hten := cast_tenTo (zerosAtEnd d.digits)
  rw [trimmed_eq]
  unfold value
  rw [Nat.cast_div (tenTo_zerosAtEnd_dvd d.digits) (by rw [hten]; positivity), hten,
    zpow_add₀ (by norm_num), zpow_natCast]
  field_simp

/-- What has no zero at its end is trimmed already. -/
theorem trimmed_eq_self {d : Decimal} (h : d.digits % 10 ≠ 0) : d.trimmed = d := by
  have hzeros : zerosAtEnd d.digits = 0 := by
    rcases Nat.lt_or_ge d.digits 10 with hlt | hge
    · exact zerosAtEnd_of_lt (by omega) hlt
    · rw [zerosAtEnd_of_le hge, if_neg h]
  rw [trimmed_eq, hzeros, tenTo_zero, Nat.div_one, Nat.cast_zero, add_zero]

/-- Trimming leaves no zero at the end. -/
theorem div_tenTo_zerosAtEnd_mod {n : Nat} (h : n ≠ 0) : n / tenTo (zerosAtEnd n) % 10 ≠ 0 := by
  induction n using Nat.strong_induction_on with
  | _ n ih =>
    rcases Nat.lt_or_ge n 10 with hlt | hge
    · rw [zerosAtEnd_of_lt (Nat.pos_of_ne_zero h) hlt, tenTo_zero, Nat.div_one,
        Nat.mod_eq_of_lt hlt]
      exact h
    rw [zerosAtEnd_of_le hge]
    split
    · have hsplit : tenTo (zerosAtEnd (n / 10) + 1) = 10 * tenTo (zerosAtEnd (n / 10)) :=
        Nat.pow_succ'
      rw [hsplit, ← Nat.div_div_eq_div_mul]
      exact ih (n / 10) (by omega) (by omega)
    · rename_i hlast
      rwa [tenTo_zero, Nat.div_one]

/-- A decimal that was rounded up to a power of ten is trimmed to one digit. -/
theorem digits_trimmed_lt {d : Decimal} {k : Nat} (hk : 0 < k) (hle : d.digits ≤ 10 ^ k) :
    d.trimmed.digits < 10 ^ k := by
  rw [trimmed_eq]
  show d.digits / tenTo (zerosAtEnd d.digits) < 10 ^ k
  rcases Nat.lt_or_eq_of_le hle with hlt | heq
  · exact Nat.lt_of_le_of_lt (Nat.div_le_self _ _) hlt
  · rw [heq]
    have hzeros : 0 < zerosAtEnd (10 ^ k) := by
      obtain ⟨less, rfl⟩ := Nat.exists_eq_succ_of_ne_zero (Nat.pos_iff_ne_zero.1 hk)
      have hten : 10 ≤ 10 ^ (less + 1) := Nat.le_self_pow (by omega) 10
      rw [zerosAtEnd_of_le hten, Nat.pow_succ, Nat.mul_mod_left, if_pos rfl]
      exact Nat.succ_pos _
    exact Nat.div_lt_self (Nat.pow_pos (by decide)) (Nat.one_lt_pow (by omega) (by decide))

end Decimal

/-! ## Correctly rounded reading -/

namespace Binary64

/-- Everything from `2 ^ 1024` on is infinity. -/
theorem ofRank_of_le (negative : Bool) {rank : Nat} (h : infinityRank ≤ rank) :
    ofRank negative rank = infinity negative := by
  simp only [infinity, ofRank, Nat.min_eq_right h, Nat.min_self]

/-- Infinity has the magnitude `2 ^ 1024`, of 309 digits. -/
theorem magnitude_infinityRank_lt : magnitude infinityRank < (10 : ℚ) ^ (309 : ℕ) := by
  have hunits : units infinityRank < 10 ^ 309 * unitsPerOne := by decide +kernel
  unfold magnitude
  rw [div_lt_iff₀ (by exact_mod_cast unitsPerOne_pos)]
  exact_mod_cast hunits

theorem two_mul_pow_lt_magnitude_one : 2 * ((10 : ℚ) ^ (330 : ℕ))⁻¹ < magnitude 1 := by
  have hunits : 2 * unitsPerOne < units 1 * 10 ^ 330 := by decide +kernel
  unfold magnitude
  rw [lt_div_iff₀ (by exact_mod_cast unitsPerOne_pos), mul_right_comm, ← div_eq_mul_inv,
    div_lt_iff₀ (by positivity)]
  exact_mod_cast hunits

/-- **Reading a decimal rounds its value**, also where the digits are not looked at. -/
theorem ofDecimal_eq (negative : Bool) (d : Decimal) :
    ofDecimal negative d = ofRank negative (rankOf d.value) := by
  unfold ofDecimal
  split
  · rename_i hzero
    have hvalue : d.value = 0 := by simp [Decimal.value, hzero]
    rw [hvalue, ← magnitude_zero, rankOf_magnitude]
    rfl
  rename_i hne
  split
  · rename_i hlarge
    -- the two exponents are short cuts: the comparison with the ends of the range agrees
    refine (ofRank_of_le negative (le_rankOf ?_)).symm
    calc magnitude infinityRank ≤ (10 : ℚ) ^ (309 : ℕ) := magnitude_infinityRank_lt.le
      _ = (10 : ℚ) ^ (309 : ℤ) := (zpow_natCast _ 309).symm
      _ ≤ (10 : ℚ) ^ d.leading := zpow_le_zpow_right₀ (by norm_num) (by omega)
      _ ≤ d.value := Decimal.le_value hne
  split
  · rename_i hsmall
    have hvalue : d.value ≤ ((10 : ℚ) ^ (330 : ℕ))⁻¹ := by
      calc d.value ≤ (10 : ℚ) ^ (d.leading + 1) := (Decimal.value_lt d).le
        _ ≤ (10 : ℚ) ^ (-330 : ℤ) := zpow_le_zpow_right₀ (by norm_num) (by omega)
        _ = ((10 : ℚ) ^ (330 : ℕ))⁻¹ := by rw [zpow_neg, ← zpow_natCast]; rfl
    have hrank : rankOf d.value ≤ 0 := by
      refine rankOf_le_of_lt_midpoint (Decimal.value_nonneg d) ?_
      rw [magnitude_zero, zero_add, Nat.zero_add]
      exact lt_of_le_of_lt (mul_le_mul_of_nonneg_left hvalue (by norm_num))
        two_mul_pow_lt_magnitude_one
    rw [Nat.le_zero.1 hrank]
    rfl
  · unfold ofRatio
    rw [Decimal.value_eq_div, rankOf_div _ (Decimal.denominator_pos d)]

end Binary64

end ChunkSizing
