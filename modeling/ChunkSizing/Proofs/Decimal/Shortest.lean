import ChunkSizing.Decimal.Shortest
import ChunkSizing.Proofs.Decimal.Value

/-!
# ChunkSizing.Proofs.Decimal.Shortest — seventeen digits suffice.

The search for the shortest decimal of a magnitude ends with one that reads back
(`readsBack_shortest`) and has at most seventeen digits (`digits_shortest_lt`). The reason is one
inequality: a magnitude is at most `2 ^ 53` steps of its format, and the grid of seventeen digits is
finer than its `10 ^ 16`-th part, so one of the two neighbours on that grid is nearer to the
magnitude than the midpoints on either side.
-/

namespace ChunkSizing

namespace Binary64

/-! ## Steps -/

/-- A magnitude is at most `2 ^ 53` of the steps that lead up to it. -/
theorem magnitude_le_steps (rank : Nat) :
    magnitude (rank + 1) ≤ 2 ^ 53 * (magnitude (rank + 1) - magnitude rank) := by
  obtain ⟨shift, significand, rfl, hlt, hge⟩ := exists_binade rank
  have hlow := units_of_binade (Nat.le_of_lt hlt) hge
  have hhigh := units_of_binade (Nat.succ_le_of_lt hlt) (hge.imp_right Nat.le_succ_of_le)
  have hcount : ((significand + 1 : ℕ) : ℚ) ≤ 2 ^ 53 := by
    have hnat : significand + 1 ≤ 2 ^ 53 := hlt
    exact_mod_cast hnat
  unfold magnitude
  rw [Nat.add_assoc, hlow, show significand + 1 = significand.succ from rfl, hhigh, ← sub_div,
    mul_div_assoc']
  refine div_le_div_of_nonneg_right ?_ (Nat.cast_nonneg _)
  have hstep : (0 : ℚ) ≤ twoTo shift := Nat.cast_nonneg _
  push_cast at hcount ⊢
  calc ((significand : ℚ) + 1) * twoTo shift ≤ 2 ^ 53 * twoTo shift :=
        mul_le_mul_of_nonneg_right hcount hstep
    _ = 2 ^ 53 * ((significand + 1) * twoTo shift - significand * twoTo shift) := by ring

/-- The step above a magnitude is no shorter than the step below it. -/
theorem magnitude_step_mono (rank : Nat) :
    magnitude (rank + 1) - magnitude rank ≤ magnitude (rank + 2) - magnitude (rank + 1) := by
  have hstep : ((twoTo (rank / binade - 1) : ℕ) : ℚ) ≤ (twoTo ((rank + 1) / binade - 1) : ℕ) := by
    exact_mod_cast step_mono (Nat.le_succ rank)
  unfold magnitude
  rw [← sub_div, ← sub_div]
  refine div_le_div_of_nonneg_right ?_ (Nat.cast_nonneg _)
  rw [units_succ rank, units_succ (rank + 1), units_succ rank]
  push_cast
  linarith

/-- **A rational very near to a magnitude is rounded to it.** -/
theorem rankOf_eq_of_near {rank : Nat} {q ε : ℚ} (hrank : 0 < rank)
    (hfine : 2 ^ 53 * ε < magnitude rank) (hlow : magnitude rank - ε / 2 ≤ q)
    (hhigh : q ≤ magnitude rank + ε / 2) : rankOf q = rank := by
  obtain ⟨below, rfl⟩ := Nat.exists_eq_succ_of_ne_zero (Nat.pos_iff_ne_zero.1 hrank)
  have hsteps := magnitude_le_steps below
  have hgrow := magnitude_step_mono below
  have hstep : ε < magnitude (below + 1) - magnitude below := by linarith
  have hpos := magnitude_nonneg below
  refine Nat.le_antisymm (rankOf_le_of_lt_midpoint ?_ ?_) (lt_rankOf_of_midpoint_lt ?_)
  · show 0 ≤ q
    have : ε / 2 ≤ magnitude (below + 1) := by linarith
    linarith
  · show 2 * q < magnitude (below + 1) + magnitude (below + 2)
    linarith
  · linarith

/-- Below infinity different ranks are different values. -/
theorem ofRank_eq_iff (negative : Bool) {low high : Nat} (h : high < infinityRank) :
    ofRank negative low = ofRank negative high ↔ low = high := by
  constructor
  · intro heq
    simp only [ofRank, signed.injEq, Fin.mk.injEq, true_and] at heq
    omega
  · rintro rfl
    rfl

end Binary64

namespace Decimal

open Binary64

/-- Reading back, as a rounding. -/
theorem readsBack_iff {rank : Nat} (h : rank < infinityRank) (d : Decimal) :
    d.ReadsBack rank ↔ rankOf d.value = rank := by
  unfold ReadsBack
  rw [ofDecimal_eq, ofRank_eq_iff false h]

/-- Only zero is read from zeros. -/
theorem digits_ne_zero_of_readsBack {rank : Nat} {d : Decimal} (hrank : 0 < rank)
    (hfinite : rank < infinityRank) (hread : d.ReadsBack rank) : d.digits ≠ 0 := by
  intro hzero
  rw [readsBack_iff hfinite, value, hzero, Nat.cast_zero, zero_mul, ← magnitude_zero,
    rankOf_magnitude] at hread
  exact hrank.ne hread

/-! ## The leading exponent -/

theorem pow_length_le {n : Nat} (h : 0 < n) : 10 ^ ((Nat.toDigits 10 n).length - 1) ≤ n :=
  le_digits (d := ⟨n, 0⟩) (Nat.pos_iff_ne_zero.1 h)

theorem lt_pow_length (n : Nat) : n < 10 ^ (Nat.toDigits 10 n).length := digits_lt ⟨n, 0⟩

/-- The leading exponent of a magnitude brackets it between powers of ten. -/
theorem leadingOf_spec {rank : Nat} (hrank : 0 < rank) :
    (10 : ℚ) ^ leadingOf rank ≤ magnitude rank ∧
    magnitude rank < (10 : ℚ) ^ (leadingOf rank + 1) := by
  have hunits : 0 < units rank := units_zero ▸ units_strictMono hrank
  have hone := unitsPerOne_pos
  have hone' : (0 : ℚ) < unitsPerOne := by exact_mod_cast hone
  unfold magnitude
  rw [le_div_iff₀ hone', div_lt_iff₀ hone']
  simp only [leadingOf]
  split
  · rename_i hwhole
    have hlow := pow_length_le hwhole
    have hhigh := lt_pow_length (units rank / unitsPerOne)
    have hlength := Nat.length_toDigits_pos (b := 10) (n := units rank / unitsPerOne)
    generalize (Nat.toDigits 10 (units rank / unitsPerOne)).length = length at hlow hhigh hlength
    obtain ⟨less, rfl⟩ := Nat.exists_eq_succ_of_ne_zero (Nat.pos_iff_ne_zero.1 hlength)
    rw [Nat.le_div_iff_mul_le hone] at hlow
    rw [Nat.div_lt_iff_lt_mul hone] at hhigh
    rw [show ((less.succ : ℕ) : ℤ) - 1 = (less : ℕ) by omega,
      show ((less : ℕ) : ℤ) + 1 = (less.succ : ℕ) by omega, zpow_natCast, zpow_natCast]
    exact ⟨by exact_mod_cast hlow, by exact_mod_cast hhigh⟩
  · rename_i hsmall
    -- below one the reciprocal, rounded up to a whole number, has one digit more than its exponent
    have hlt : units rank < unitsPerOne := by
      by_contra hle
      exact hsmall (Nat.div_pos (Nat.not_lt.1 hle) hone)
    have hwhole : 0 < (unitsPerOne - 1) / units rank := Nat.div_pos (by omega) hunits
    have hlow := pow_length_le hwhole
    have hhigh := lt_pow_length ((unitsPerOne - 1) / units rank)
    have hlength := Nat.length_toDigits_pos (b := 10) (n := (unitsPerOne - 1) / units rank)
    generalize (Nat.toDigits 10 ((unitsPerOne - 1) / units rank)).length = length
      at hlow hhigh hlength
    obtain ⟨less, rfl⟩ := Nat.exists_eq_succ_of_ne_zero (Nat.pos_iff_ne_zero.1 hlength)
    rw [Nat.le_div_iff_mul_le hunits] at hlow
    rw [Nat.div_lt_iff_lt_mul hunits] at hhigh
    have hlow' : 10 ^ less * units rank < unitsPerOne := by
      simp only [Nat.succ_eq_add_one, Nat.add_sub_cancel] at hlow
      omega
    have hhigh' : unitsPerOne ≤ 10 ^ (less + 1) * units rank := by
      simp only [Nat.succ_eq_add_one] at hhigh
      omega
    rw [show (-((less.succ : ℕ) : ℤ) + 1) = -((less : ℕ) : ℤ) by omega, zpow_neg, zpow_neg,
      zpow_natCast, zpow_natCast, inv_mul_le_iff₀ (by positivity), ← div_eq_inv_mul,
      lt_div_iff₀' (by positivity)]
    exact ⟨by exact_mod_cast hhigh', by exact_mod_cast hlow'⟩

/-! ## The two neighbours on a grid -/

/-- The magnitude in steps of a grid, rounded down. -/
def gridFloor (rank : Nat) (exponent : Int) : Nat :=
  units rank * tenTo (-exponent).toNat / (unitsPerOne * tenTo exponent.toNat)

/-- The grid's powers of ten are one power. -/
theorem tenTo_div_tenTo (exponent : Int) :
    (tenTo exponent.toNat : ℚ) / tenTo (-exponent).toNat = 10 ^ exponent := by
  rw [cast_tenTo, cast_tenTo]
  rcases Int.le_total 0 exponent with h | h
  · obtain ⟨n, rfl⟩ := Int.eq_ofNat_of_zero_le h
    simp
  · obtain ⟨n, rfl⟩ := Int.exists_eq_neg_ofNat h
    simp

/-- The magnitude lies between its neighbours. -/
theorem gridFloor_spec (rank : Nat) (exponent : Int) :
    (gridFloor rank exponent : ℚ) * 10 ^ exponent ≤ magnitude rank ∧
    magnitude rank < ((gridFloor rank exponent + 1 : ℕ) : ℚ) * 10 ^ exponent := by
  have hdown : (0 : ℚ) < tenTo (-exponent).toNat := by rw [cast_tenTo]; positivity
  have hup : 0 < unitsPerOne * tenTo exponent.toNat :=
    Nat.mul_pos unitsPerOne_pos (Nat.pow_pos (by decide))
  have hone : (0 : ℚ) < unitsPerOne := by exact_mod_cast unitsPerOne_pos
  have hlow := Nat.div_mul_le_self (units rank * tenTo (-exponent).toNat)
    (unitsPerOne * tenTo exponent.toNat)
  have hhigh := Nat.lt_mul_div_succ (units rank * tenTo (-exponent).toNat) hup
  -- over the naturals, both bounds are those of a quotient
  rw [← tenTo_div_tenTo]
  unfold magnitude
  rw [mul_div_assoc', mul_div_assoc', div_le_div_iff₀ hdown hone, div_lt_div_iff₀ hone hdown]
  have hassoc (n : Nat) : n * tenTo exponent.toNat * unitsPerOne =
      n * (unitsPerOne * tenTo exponent.toNat) := by ring
  constructor
  · have : gridFloor rank exponent * tenTo exponent.toNat * unitsPerOne ≤
        units rank * tenTo (-exponent).toNat := by
      rw [hassoc]
      exact hlow
    exact_mod_cast this
  · have : units rank * tenTo (-exponent).toNat <
        (gridFloor rank exponent + 1) * tenTo exponent.toNat * unitsPerOne := by
      rw [hassoc, Nat.mul_comm _ (unitsPerOne * tenTo exponent.toNat)]
      exact hhigh
    exact_mod_cast this

/-- What a grid offers, in terms of the neighbours. -/
theorem onGrid?_eq (tie : Tie) (rank : Nat) (exponent : Int) :
    ∃ near : Decimal, (near = ⟨gridFloor rank exponent, exponent⟩ ∨
      near = ⟨gridFloor rank exponent + 1, exponent⟩) ∧
    onGrid? tie rank exponent =
      if ReadsBack rank ⟨gridFloor rank exponent, exponent⟩ then
        if ReadsBack rank ⟨gridFloor rank exponent + 1, exponent⟩ then some near
        else some ⟨gridFloor rank exponent, exponent⟩
      else if ReadsBack rank ⟨gridFloor rank exponent + 1, exponent⟩ then
        some ⟨gridFloor rank exponent + 1, exponent⟩
      else none := by
  simp only [onGrid?, gridFloor]
  obtain ⟨num, hnum⟩ : ∃ num, num = units rank * tenTo (-exponent).toNat := ⟨_, rfl⟩
  obtain ⟨den, hden⟩ : ∃ den, den = unitsPerOne * tenTo exponent.toNat := ⟨_, rfl⟩
  simp only [← hnum, ← hden]
  by_cases hlow : 2 * (num % den) < den
  · exact ⟨_, .inl rfl, by simp only [if_pos hlow]⟩
  by_cases hhigh : den < 2 * (num % den)
  · exact ⟨_, .inr rfl, by simp only [if_neg hlow, if_pos hhigh]⟩
  by_cases heven : tie = .toEven ∧ num / den % 2 = 0
  · exact ⟨_, .inl rfl, by simp only [if_neg hlow, if_neg hhigh, if_pos heven]⟩
  · exact ⟨_, .inr rfl, by simp only [if_neg hlow, if_neg hhigh, if_neg heven]⟩

/-- What a grid offers reads back and is one of the neighbours. -/
theorem onGrid?_eq_some {tie : Tie} {rank : Nat} {exponent : Int} {d : Decimal}
    (h : onGrid? tie rank exponent = some d) :
    d.ReadsBack rank ∧ d.digits ≤ gridFloor rank exponent + 1 := by
  obtain ⟨near, hnear, heq⟩ := onGrid?_eq tie rank exponent
  rw [heq] at h
  split at h
  · rename_i hbelow
    split at h
    · rename_i habove
      obtain rfl := Option.some.inj h
      rcases hnear with rfl | rfl
      · exact ⟨hbelow, Nat.le_succ _⟩
      · exact ⟨habove, Nat.le_refl _⟩
    · obtain rfl := Option.some.inj h
      exact ⟨hbelow, Nat.le_succ _⟩
  split at h
  · rename_i habove
    obtain rfl := Option.some.inj h
    exact ⟨habove, Nat.le_refl _⟩
  · cases h

/-- A grid with a neighbour that reads back offers a decimal. -/
theorem onGrid?_isSome (tie : Tie) {rank : Nat} {exponent : Int}
    (h : ReadsBack rank ⟨gridFloor rank exponent, exponent⟩ ∨
      ReadsBack rank ⟨gridFloor rank exponent + 1, exponent⟩) :
    (onGrid? tie rank exponent).isSome := by
  obtain ⟨near, -, heq⟩ := onGrid?_eq tie rank exponent
  rw [heq]
  by_cases hbelow : ReadsBack rank ⟨gridFloor rank exponent, exponent⟩
  · rw [if_pos hbelow]
    split <;> rfl
  · rw [if_neg hbelow, if_pos (h.resolve_left hbelow)]
    rfl

/-- **On the grid of seventeen digits** a neighbour reads back. -/
theorem readsBack_gridFloor {rank : Nat} (hrank : 0 < rank) (hfinite : rank < infinityRank) :
    ReadsBack rank ⟨gridFloor rank (leadingOf rank - 16), leadingOf rank - 16⟩ ∨
    ReadsBack rank ⟨gridFloor rank (leadingOf rank - 16) + 1, leadingOf rank - 16⟩ := by
  rw [readsBack_iff hfinite, readsBack_iff hfinite]
  obtain ⟨hlow, hhigh⟩ := gridFloor_spec rank (leadingOf rank - 16)
  have hfine : 2 ^ 53 * (10 : ℚ) ^ (leadingOf rank - 16) < magnitude rank := by
    have hleading := (leadingOf_spec hrank).1
    have hpos : (0 : ℚ) < 10 ^ leadingOf rank := by positivity
    have hsplit : (10 : ℚ) ^ (leadingOf rank - 16) = 10 ^ leadingOf rank / 10 ^ 16 := by
      rw [zpow_sub₀ (by norm_num)]
      norm_cast
    rw [hsplit]
    refine lt_of_lt_of_le ?_ hleading
    rw [mul_div_assoc', div_lt_iff₀ (by norm_num), mul_comm]
    exact mul_lt_mul_of_pos_left (by norm_num) hpos
  unfold value
  push_cast at hhigh ⊢
  generalize (10 : ℚ) ^ (leadingOf rank - 16) = ε at hlow hhigh hfine ⊢
  rw [add_mul, one_mul] at hhigh ⊢
  generalize (gridFloor rank (leadingOf rank - 16) : ℚ) * ε = below at hlow hhigh ⊢
  -- the nearer of the two is at most half a step away
  rcases le_total (magnitude rank - ε / 2) below with hnear | hfar
  · exact .inl (rankOf_eq_of_near hrank hfine hnear (by linarith))
  · exact .inr (rankOf_eq_of_near hrank hfine (by linarith) (by linarith))

/-! ## The search -/

/-- The neighbours have at most as many digits as the grid is fine. -/
theorem gridFloor_lt {rank : Nat} (hrank : 0 < rank) (extra : Nat) :
    gridFloor rank (leadingOf rank - extra) < 10 ^ (extra + 1) := by
  have hlow := (gridFloor_spec rank (leadingOf rank - extra)).1
  have hhigh := (leadingOf_spec hrank).2
  have hpos : (0 : ℚ) < 10 ^ (leadingOf rank - extra) := by positivity
  have hsplit : (10 : ℚ) ^ (leadingOf rank + 1) =
      10 ^ (extra + 1) * 10 ^ (leadingOf rank - extra) := by
    rw [← zpow_natCast, ← zpow_add₀ (by norm_num)]
    congr 1
    omega
  rw [hsplit] at hhigh
  have hlt := lt_of_mul_lt_mul_right (hlow.trans_lt hhigh) hpos.le
  exact_mod_cast hlt

/-- What the search finds, before it is trimmed. -/
theorem exists_found (tie : Tie) {rank : Nat} (hrank : 0 < rank) (hfinite : rank < infinityRank) :
    ∃ d : Decimal, shortest tie rank = d.trimmed ∧ d.ReadsBack rank ∧ d.digits ≤ 10 ^ 17 := by
  -- the last grid is fine enough, whatever the coarser ones offer
  have hsome : ((List.range 17).findSome? fun (extra : Nat) =>
      onGrid? tie rank (leadingOf rank - extra)).isSome := by
    rw [List.findSome?_isSome_iff]
    exact ⟨16, List.mem_range.2 (by decide), onGrid?_isSome tie (readsBack_gridFloor hrank hfinite)⟩
  obtain ⟨d, hfound⟩ := Option.isSome_iff_exists.1 hsome
  obtain ⟨extra, hextra, hgrid⟩ := List.exists_of_findSome?_eq_some hfound
  obtain ⟨hread, hdigits⟩ := onGrid?_eq_some hgrid
  refine ⟨d, ?_, hread, ?_⟩
  · simp only [shortest, if_neg (Nat.pos_iff_ne_zero.1 hrank), hfound]
    rfl
  · have hlt := gridFloor_lt hrank extra
    have hpow : 10 ^ (extra + 1) ≤ 10 ^ 17 :=
      Nat.pow_le_pow_right (by decide) (List.mem_range.1 hextra)
    omega

theorem shortest_zero (tie : Tie) : shortest tie 0 = ⟨0, 0⟩ := rfl

/-- **The shortest decimal reads back.** -/
theorem readsBack_shortest (tie : Tie) {rank : Nat} (hfinite : rank < infinityRank) :
    (shortest tie rank).ReadsBack rank := by
  rcases Nat.eq_zero_or_pos rank with rfl | hrank
  · rfl
  · obtain ⟨d, heq, hread, -⟩ := exists_found tie hrank hfinite
    rw [readsBack_iff hfinite] at hread ⊢
    rw [heq, value_trimmed, hread]

/-- **It has at most seventeen digits.** -/
theorem digits_shortest_lt (tie : Tie) {rank : Nat} (hfinite : rank < infinityRank) :
    (shortest tie rank).digits < 10 ^ 17 := by
  rcases Nat.eq_zero_or_pos rank with rfl | hrank
  · exact Nat.pow_pos (by decide)
  · obtain ⟨d, heq, -, hdigits⟩ := exists_found tie hrank hfinite
    rw [heq]
    exact digits_trimmed_lt (by decide) hdigits

/-! ## Quick evaluation -/

/-- Reading back, by the rank alone. -/
def quickReads (rank : Nat) (d : Decimal) : Bool :=
  quickRank (d.numerator * unitsPerOne) d.denominator == rank

theorem quickReads_iff {rank : Nat} (hfinite : rank < infinityRank) (d : Decimal) :
    quickReads rank d = true ↔ d.ReadsBack rank := by
  unfold quickReads
  rw [readsBack_iff hfinite, beq_iff_eq, quickRank_eq, value_eq_div,
    rankOf_div _ (denominator_pos d)]

/-- The neighbours on one grid, quick to evaluate. -/
def quickOnGrid? (rank : Nat) (exponent : Int) : Option Decimal :=
  let num := units rank * tenTo (-exponent).toNat
  let den := unitsPerOne * tenTo exponent.toNat
  let below : Decimal := ⟨num / den, exponent⟩
  let above : Decimal := ⟨num / den + 1, exponent⟩
  let twice := 2 * (num % den)
  if quickReads rank below then
    if quickReads rank above then
      if twice < den then some below
      else if den < twice then some above
      else if below.digits % 2 = 0 then some below
      else some above
    else some below
  else if quickReads rank above then some above
  else none

/-- **The shortest decimal, quick to evaluate.** -/
def quickShortest (rank : Nat) : Decimal :=
  if rank = 0 then ⟨0, 0⟩
  else
    let leading := leadingOf rank
    let found := (List.range 17).findSome? fun (extra : Nat) => quickOnGrid? rank (leading - extra)
    (found.getD ⟨0, 0⟩).trimmed

theorem quickShortest_eq {rank : Nat} (hfinite : rank < infinityRank) :
    quickShortest rank = shortest .toEven rank := by
  have hgrid (exponent : Int) : quickOnGrid? rank exponent = onGrid? .toEven rank exponent := by
    unfold quickOnGrid? onGrid?
    simp only [quickReads_iff hfinite, true_and]
  unfold quickShortest shortest
  simp only [hgrid]

end Decimal

end ChunkSizing
