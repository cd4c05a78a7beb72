import ChunkSizing.Proofs.Binary64.Arithmetic

/-!
# ChunkSizing.Proofs.Binary64.Doubling — what needs no rounding.

Doubling a magnitude gives a magnitude again: a subnormal one doubles its significand, and every
other moves up by a binade (`units_doubled`). Hence scaling up by a power of two is exact, with the
subnormals among the operands and with results beyond infinity, where ranks go on counting
(`magnitude_iterate_doubled`). Whole numbers of up to 53 bits are the significands of the lowest
binades; doubled, they give their quotients by powers of two, and at last themselves
(`magnitude_rankOf_div`, `magnitude_rankOf_natCast`).
-/

namespace ChunkSizing.Binary64

/-! ## Doubling -/

/-- The rank of twice a magnitude. -/
def doubled (rank : Nat) : Nat := if rank < binade then 2 * rank else rank + binade

theorem units_doubled (rank : Nat) : units (doubled rank) = 2 * units rank := by
  obtain ⟨shift, significand, rfl, hlt, hge⟩ := exists_binade rank
  unfold doubled
  split
  · rename_i hsmall
    -- in the first binade the significand has room for another bit
    obtain rfl : shift = 0 := by omega
    rw [Nat.zero_mul, Nat.zero_add] at hsmall ⊢
    have hdouble : units (0 * binade + 2 * significand) = 2 * significand * twoTo 0 :=
      units_of_binade (by omega) (.inl rfl)
    have hsingle : units (0 * binade + significand) = significand * twoTo 0 :=
      units_of_binade hlt.le (.inl rfl)
    rw [Nat.zero_mul, Nat.zero_add] at hdouble hsingle
    rw [hdouble, hsingle, Nat.mul_assoc]
  · rename_i hlarge
    have hge' : binade ≤ significand := by
      rcases hge with rfl | hge
      · omega
      · exact hge
    have hnext : shift * binade + significand + binade = (shift + 1) * binade + significand := by
      ring
    rw [hnext, units_of_binade hlt.le (.inr hge'), units_of_binade hlt.le (.inr hge'), twoTo_eq,
      twoTo_eq]
    ring

theorem units_iterate_doubled (places rank : Nat) :
    units (doubled^[places] rank) = twoTo places * units rank := by
  induction places with
  | zero => exact (Nat.one_mul _).symm
  | succ places ih =>
    rw [Function.iterate_succ_apply', units_doubled, ih, twoTo_eq, twoTo_eq]
    ring

/-- **Scaling by a power of two is exact.** -/
theorem magnitude_iterate_doubled (places rank : Nat) :
    magnitude (doubled^[places] rank) = twoTo places * magnitude rank := by
  unfold magnitude
  rw [units_iterate_doubled, Nat.cast_mul, mul_div_assoc]

/-! ## Whole numbers -/

/-- **Quotients of 53 bits by a power of two are magnitudes**, down to the least one. -/
theorem magnitude_rankOf_div {n places : Nat} (h : n ≤ 2 ^ 53) (hplaces : places ≤ 1074) :
    magnitude (rankOf (n / twoTo places)) = n / twoTo places := by
  have hne : (unitsPerOne : ℚ) ≠ 0 := by exact_mod_cast unitsPerOne_pos.ne'
  have hpos : (twoTo places : ℚ) ≠ 0 := by exact_mod_cast (twoTo_pos places).ne'
  have hone : twoTo (1074 - places) * twoTo places = unitsPerOne := by
    rw [← twoTo_add, Nat.sub_add_cancel hplaces]
    rfl
  have hunits : units n = n := by
    have hfirst : units (0 * binade + n) = n * twoTo 0 := units_of_binade h (.inl rfl)
    rwa [Nat.zero_mul, Nat.zero_add, show n * twoTo 0 = n from Nat.mul_one n] at hfirst
  have hexact : magnitude (doubled^[1074 - places] n) = n / twoTo places := by
    unfold magnitude
    rw [units_iterate_doubled, hunits, div_eq_div_iff hne hpos, ← Nat.cast_mul, ← Nat.cast_mul,
      Nat.mul_right_comm, hone, Nat.mul_comm]
  rw [← hexact, rankOf_magnitude]

/-- **Whole numbers of 53 bits are magnitudes.** -/
theorem magnitude_rankOf_natCast {n : Nat} (h : n ≤ 2 ^ 53) : magnitude (rankOf n) = n := by
  have hexact := magnitude_rankOf_div h (Nat.zero_le 1074)
  rwa [show twoTo 0 = 1 from rfl, Nat.cast_one, div_one] at hexact

end ChunkSizing.Binary64
