import ChunkSizing.Proofs.Decimal.Shortest
import Mathlib.Data.Nat.Find

/-!
# ChunkSizing.Proofs.Decimal.Fewest — no decimal with fewer digits reads back.

A decimal of few digits that reads back lies on the grid of that many digits, or on the far side of
a point of it, so one of the two neighbours on that grid reads back too (`hits_of_few`). The search
goes from the coarsest grid to finer ones and stops at the first hit; so the digits it finds are the
fewest (`digits_shortest_lt_of_few`). Where it stops does not depend on the way that ties go. What
it finds there does exactly if the magnitude is half way between two neighbours of the fewest
digits, both read back, and the lower one is even (`shortest_eq_or_isTie`, `shortest_of_isTie`).
-/

namespace ChunkSizing.Decimal

open Binary64

variable {rank : Nat} {exponent : Int}

/-! ## Grids that are hit -/

/-- One of the two neighbours on a grid reads back. -/
def Hits (rank : Nat) (exponent : Int) : Prop :=
  ReadsBack rank ⟨gridFloor rank exponent, exponent⟩ ∨
    ReadsBack rank ⟨gridFloor rank exponent + 1, exponent⟩

theorem le_gridFloor {n : Nat} (h : (n : ℚ) * 10 ^ exponent ≤ magnitude rank) :
    n ≤ gridFloor rank exponent := by
  have hlt := h.trans_lt (gridFloor_spec rank exponent).2
  have hpos : (0 : ℚ) < 10 ^ exponent := by positivity
  have hcast := lt_of_mul_lt_mul_right hlt hpos.le
  exact Nat.le_of_lt_succ (by exact_mod_cast hcast)

theorem gridFloor_lt_of_lt {n : Nat} (h : magnitude rank < (n : ℚ) * 10 ^ exponent) :
    gridFloor rank exponent < n := by
  have hlt := (gridFloor_spec rank exponent).1.trans_lt h
  have hpos : (0 : ℚ) < 10 ^ exponent := by positivity
  have hcast := lt_of_mul_lt_mul_right hlt hpos.le
  exact_mod_cast hcast

/-- What lies between a magnitude and a decimal that reads back reads back. -/
theorem readsBack_of_between {d near : Decimal} (hfinite : rank < infinityRank)
    (h : d.ReadsBack rank) (hnear : (d.value ≤ near.value ∧ near.value ≤ magnitude rank) ∨
      (magnitude rank ≤ near.value ∧ near.value ≤ d.value)) : near.ReadsBack rank := by
  rw [readsBack_iff hfinite] at h ⊢
  rcases hnear with ⟨hlow, hhigh⟩ | ⟨hlow, hhigh⟩
  · exact le_antisymm (rankOf_le hhigh) (h.symm.le.trans (rankOf_mono hlow))
  · exact le_antisymm ((rankOf_mono hhigh).trans h.le) (le_rankOf hlow)

/-- A decimal of few digits, from the leading power of ten on, is on the grid of that many. -/
theorem exists_on_grid {d : Decimal} {leading : Int} {extra : Nat}
    (hdigits : d.digits < 10 ^ (extra + 1)) (hleading : (10 : ℚ) ^ leading ≤ d.value) :
    ∃ n : Nat, d.value = n * 10 ^ (leading - extra) := by
  have hlt : (10 : ℚ) ^ leading < 10 ^ ((extra : ℤ) + 1 + d.exponent) := by
    refine hleading.trans_lt ?_
    rw [zpow_add₀ (by norm_num)]
    refine mul_lt_mul_of_pos_right ?_ (by positivity)
    exact_mod_cast hdigits
  have hle : leading - extra ≤ d.exponent := by
    have := (zpow_lt_zpow_iff_right₀ (show (1 : ℚ) < 10 by norm_num)).1 hlt
    omega
  obtain ⟨more, hmore⟩ := Int.eq_ofNat_of_zero_le (Int.sub_nonneg_of_le hle)
  refine ⟨d.digits * 10 ^ more, ?_⟩
  have hsplit : d.exponent = more + (leading - extra) := by omega
  unfold value
  rw [hsplit, zpow_add₀ (by norm_num), zpow_natCast]
  push_cast
  ring

/-- The leading power of ten in steps of a grid. -/
theorem tenTo_leadingOf (rank extra : Nat) : (10 : ℚ) ^ leadingOf rank =
    ((10 ^ extra : ℕ) : ℚ) * 10 ^ (leadingOf rank - extra) := by
  push_cast
  rw [← zpow_natCast, ← zpow_add₀ (by norm_num)]
  congr 1
  omega

/-- The lower neighbour has as many digits as the grid is fine. -/
theorem le_gridFloor_of_leading (hrank : 0 < rank) (extra : Nat) :
    10 ^ extra ≤ gridFloor rank (leadingOf rank - extra) := by
  have hleading := (leadingOf_spec hrank).1
  rw [tenTo_leadingOf rank extra] at hleading
  exact le_gridFloor hleading

/-- **Few digits that read back hit the grid** of that many digits. -/
theorem hits_of_few {d : Decimal} {extra : Nat} (hrank : 0 < rank) (hfinite : rank < infinityRank)
    (hdigits : d.digits < 10 ^ (extra + 1)) (hread : d.ReadsBack rank) :
    Hits rank (leadingOf rank - extra) := by
  obtain ⟨hlow, hhigh⟩ := gridFloor_spec rank (leadingOf rank - extra)
  obtain ⟨hleading, -⟩ := leadingOf_spec hrank
  rcases le_or_gt d.value (magnitude rank) with hbelow | habove
  · -- the floor is at least the decimal, which may be in a lower decade
    left
    refine readsBack_of_between hfinite hread (.inl ⟨?_, hlow⟩)
    rcases le_or_gt ((10 : ℚ) ^ leadingOf rank) d.value with hdecade | hdecade
    · obtain ⟨n, hn⟩ := exists_on_grid hdigits hdecade
      rw [hn] at hbelow ⊢
      have hfloor := le_gridFloor hbelow
      exact mul_le_mul_of_nonneg_right (by exact_mod_cast hfloor) (by positivity)
    · rw [tenTo_leadingOf rank extra] at hdecade
      have hfloor := le_gridFloor_of_leading hrank extra
      refine hdecade.le.trans ?_
      exact mul_le_mul_of_nonneg_right (by exact_mod_cast hfloor) (by positivity)
  · right
    obtain ⟨n, hn⟩ := exists_on_grid hdigits (hleading.trans habove.le)
    refine readsBack_of_between hfinite hread (.inr ⟨hhigh.le, ?_⟩)
    rw [hn] at habove ⊢
    have hfloor := gridFloor_lt_of_lt habove
    exact mul_le_mul_of_nonneg_right (by exact_mod_cast hfloor) (by positivity)

/-! ## The first grid that is hit -/

theorem onGrid?_eq_none {tie : Tie} (h : ¬ Hits rank exponent) :
    onGrid? tie rank exponent = none := by
  obtain ⟨near, -, heq⟩ := onGrid?_eq tie rank exponent
  rw [heq, if_neg fun hbelow => h (.inl hbelow), if_neg fun habove => h (.inr habove)]

/-- The search stops at the first grid that is hit, whatever the tie. -/
theorem exists_first (hrank : 0 < rank) (hfinite : rank < infinityRank) :
    ∃ extra : Nat, (∀ less < extra, ¬ Hits rank (leadingOf rank - less)) ∧
      ∀ tie, ∃ d, onGrid? tie rank (leadingOf rank - extra) = some d ∧
        shortest tie rank = d.trimmed := by
  classical
  have hseventeen : Hits rank (leadingOf rank - (16 : ℕ)) := readsBack_gridFloor hrank hfinite
  have hexists : ∃ extra : ℕ, Hits rank (leadingOf rank - extra) := ⟨16, hseventeen⟩
  obtain ⟨more, hmore⟩ := Nat.exists_eq_add_of_le (Nat.find_min' hexists hseventeen)
  have hcoarser (less : ℕ) (hless : less < Nat.find hexists) :
      ¬ Hits rank (leadingOf rank - less) := Nat.find_min hexists hless
  refine ⟨Nat.find hexists, hcoarser, fun tie => ?_⟩
  obtain ⟨d, hd⟩ :=
    Option.isSome_iff_exists.1 (onGrid?_isSome tie (Nat.find_spec hexists))
  have hfound : ((List.range 17).findSome? fun (extra : ℕ) =>
      onGrid? tie rank (leadingOf rank - extra)) = some d := by
    rw [show 17 = Nat.find hexists + (more + 1) by omega, List.range_add,
      List.range_succ_eq_map, List.map_cons, List.findSome?_eq_some_iff]
    refine ⟨_, _, _, rfl, hd, fun less hless => ?_⟩
    exact onGrid?_eq_none (hcoarser less (List.mem_range.1 hless))
  refine ⟨d, hd, ?_⟩
  simp only [shortest, if_neg (Nat.pos_iff_ne_zero.1 hrank), hfound]
  rfl

/-- What a grid offers has at most as many digits as the grid is fine. -/
theorem digits_trimmed_onGrid?_lt {tie : Tie} {d : Decimal} {extra : Nat} (hrank : 0 < rank)
    (h : onGrid? tie rank (leadingOf rank - extra) = some d) :
    d.trimmed.digits < 10 ^ (extra + 1) := by
  have hfloor := gridFloor_lt hrank extra
  have hlast := (onGrid?_eq_some h).2
  exact digits_trimmed_lt (Nat.succ_pos extra) (by omega)

/-- **The fewest digits.** No decimal that reads back has fewer digits than the shortest one. -/
theorem digits_shortest_lt_of_few (tie : Tie) {d : Decimal} {k : Nat} (hk : 0 < k)
    (hfinite : rank < infinityRank) (hdigits : d.digits < 10 ^ k) (hread : d.ReadsBack rank) :
    (shortest tie rank).digits < 10 ^ k := by
  rcases Nat.eq_zero_or_pos rank with rfl | hrank
  · exact Nat.pow_pos (by decide)
  obtain ⟨less, rfl⟩ := Nat.exists_eq_succ_of_ne_zero (Nat.pos_iff_ne_zero.1 hk)
  obtain ⟨extra, hcoarser, hfirst⟩ := exists_first hrank hfinite
  obtain ⟨found, hfound, hshortest⟩ := hfirst tie
  have hextra : extra ≤ less := by
    by_contra hlt
    exact hcoarser less (Nat.not_le.1 hlt) (hits_of_few hrank hfinite hdigits hread)
  have hpow : 10 ^ (extra + 1) ≤ 10 ^ (less + 1) :=
    Nat.pow_le_pow_right (by decide) (Nat.succ_le_succ hextra)
  rw [hshortest]
  exact (digits_trimmed_onGrid?_lt hrank hfound).trans_le hpow

/-- No zero is left at the end of the shortest decimal. -/
theorem digits_shortest_mod (tie : Tie) (hrank : 0 < rank) (hfinite : rank < infinityRank) :
    (shortest tie rank).digits % 10 ≠ 0 := by
  obtain ⟨d, heq, hread, -⟩ := exists_found tie hrank hfinite
  rw [heq]
  exact div_tenTo_zerosAtEnd_mod (digits_ne_zero_of_readsBack hrank hfinite hread)

/-- A zero at the end would have been found on a coarser grid. -/
theorem gridFloor_mod_ten_ne {extra : Nat} (hrank : 0 < rank) (hfinite : rank < infinityRank)
    (hcoarser : ∀ less < extra, ¬ Hits rank (leadingOf rank - less))
    (hread : ReadsBack rank ⟨gridFloor rank (leadingOf rank - extra), leadingOf rank - extra⟩) :
    gridFloor rank (leadingOf rank - extra) % 10 ≠ 0 := by
  have hlow := le_gridFloor_of_leading hrank extra
  have hhigh := gridFloor_lt hrank extra
  intro hzero
  obtain ⟨tenth, htenth⟩ := Nat.dvd_of_mod_eq_zero hzero
  rw [htenth] at hread hlow hhigh
  obtain ⟨less, rfl⟩ : ∃ less, extra = less + 1 := by
    refine Nat.exists_eq_succ_of_ne_zero ?_
    rintro rfl
    omega
  have hvalue : (⟨tenth, leadingOf rank - (less + 1 : ℕ) + 1⟩ : Decimal).value =
      (⟨10 * tenth, leadingOf rank - (less + 1 : ℕ)⟩ : Decimal).value := by
    unfold value
    rw [zpow_add_one₀ (by norm_num)]
    push_cast
    ring
  have hdigits : tenth < 10 ^ (less + 1) := by
    rw [Nat.pow_succ] at hhigh
    omega
  rw [readsBack_iff hfinite, ← hvalue, ← readsBack_iff hfinite] at hread
  exact hcoarser less (Nat.lt_succ_self less) (hits_of_few hrank hfinite hdigits hread)

/-! ## Ties -/

/-- The decimal with one more in the last digit. -/
def next (d : Decimal) : Decimal := ⟨d.digits + 1, d.exponent⟩

/-- **An even tie.** The magnitude is half way between a decimal and the next one, both of them read
back, and the lower one is even. An odd lower one leaves no choice: away from zero is to even. -/
structure IsTie (rank : Nat) (d : Decimal) : Prop where
  even : d.digits % 2 = 0
  half : 2 * magnitude rank = (2 * d.digits + 1) * 10 ^ d.exponent
  reads : d.ReadsBack rank
  next_reads : d.next.ReadsBack rank

/-- Half way on a grid, by the remainder of the integer division. -/
theorem two_mul_magnitude_iff (rank : Nat) (exponent : Int) :
    2 * magnitude rank = (2 * gridFloor rank exponent + 1) * 10 ^ exponent ↔
      2 * (units rank * tenTo (-exponent).toNat % (unitsPerOne * tenTo exponent.toNat)) =
        unitsPerOne * tenTo exponent.toNat := by
  have hdown : (tenTo (-exponent).toNat : ℚ) ≠ 0 := by rw [cast_tenTo]; positivity
  have hone : (unitsPerOne : ℚ) ≠ 0 := by exact_mod_cast unitsPerOne_pos.ne'
  have hsplit := Nat.div_add_mod (units rank * tenTo (-exponent).toNat)
    (unitsPerOne * tenTo exponent.toNat)
  have hnat : 2 * magnitude rank = (2 * gridFloor rank exponent + 1) * 10 ^ exponent ↔
      2 * units rank * tenTo (-exponent).toNat =
        (2 * gridFloor rank exponent + 1) * tenTo exponent.toNat * unitsPerOne := by
    rw [← tenTo_div_tenTo, magnitude, mul_div_assoc', mul_div_assoc', div_eq_div_iff hone hdown]
    exact_mod_cast Iff.rfl
  rw [hnat]
  unfold gridFloor
  constructor <;> intro h <;> linarith

namespace IsTie

variable {d : Decimal}

/-- Zero is not half way between decimals. -/
theorem rank_pos (h : IsTie rank d) : 0 < rank := by
  refine Nat.pos_of_ne_zero ?_
  rintro rfl
  have hhalf := h.half
  have hpos : (0 : ℚ) < (2 * d.digits + 1) * 10 ^ d.exponent := by positivity
  rw [magnitude_zero] at hhalf
  linarith

/-- The lower decimal is the lower neighbour on its grid. -/
theorem gridFloor_eq (h : IsTie rank d) : gridFloor rank d.exponent = d.digits := by
  have hhalf := h.half
  have hpos : (0 : ℚ) < 10 ^ d.exponent := by positivity
  have hlow : d.digits ≤ gridFloor rank d.exponent := le_gridFloor (by linarith)
  have hhigh : gridFloor rank d.exponent < d.digits + 1 := by
    refine gridFloor_lt_of_lt ?_
    push_cast
    linarith
  omega

/-- One way of ties takes the lower decimal, and the other takes the upper one. -/
theorem onGrid?_eq (h : IsTie rank d) : onGrid? .toEven rank d.exponent = some d ∧
    onGrid? .awayFromZero rank d.exponent = some d.next := by
  have hfloor : units rank * tenTo (-d.exponent).toNat / (unitsPerOne * tenTo d.exponent.toNat) =
    d.digits := h.gridFloor_eq
  have hhalf := h.half
  rw [← h.gridFloor_eq, two_mul_magnitude_iff] at hhalf
  have hreads : ReadsBack rank ⟨d.digits, d.exponent⟩ := h.reads
  have hnext : ReadsBack rank ⟨d.digits + 1, d.exponent⟩ := h.next_reads
  unfold onGrid?
  simp only [hfloor, hhalf, hreads, hnext, h.even, lt_irrefl, if_true, if_false, and_self,
    reduceCtorEq, false_and]
  exact ⟨trivial, rfl⟩

/-- Its digits are those of a magnitude with this leading exponent. -/
theorem leadingOf_eq (h : IsTie rank d) (hfinite : rank < infinityRank) :
    leadingOf rank = d.leading := by
  obtain ⟨hlow, hhigh⟩ := leadingOf_spec h.rank_pos
  have hne := digits_ne_zero_of_readsBack h.rank_pos hfinite h.reads
  have hhalf := h.half
  have hpos : (0 : ℚ) < 10 ^ d.exponent := by positivity
  have hbelow : (10 : ℚ) ^ d.leading ≤ magnitude rank := by
    refine (le_value hne).trans ?_
    unfold value
    linarith
  have habove : magnitude rank < (10 : ℚ) ^ (d.leading + 1) := by
    have hdigits : ((d.digits : ℚ) + 1) ≤ 10 ^ d.written.length := by exact_mod_cast digits_lt d
    have hlength : d.leading + 1 = (d.written.length : ℤ) + d.exponent := by
      unfold leading
      omega
    rw [hlength, zpow_add₀ (by norm_num), zpow_natCast]
    have := mul_le_mul_of_nonneg_right hdigits hpos.le
    linarith
  have hten : (1 : ℚ) < 10 := by norm_num
  have hle := (zpow_lt_zpow_iff_right₀ hten).1 (hlow.trans_lt habove)
  have hge := (zpow_lt_zpow_iff_right₀ hten).1 (hbelow.trans_lt hhigh)
  omega

end IsTie

/-- Without an even tie, a grid offers the same whichever way ties go. -/
theorem onGrid?_eq_or_isTie (rank : Nat) (exponent : Int) :
    onGrid? .toEven rank exponent = onGrid? .awayFromZero rank exponent ∨
      IsTie rank ⟨gridFloor rank exponent, exponent⟩ := by
  have hfloor : units rank * tenTo (-exponent).toNat / (unitsPerOne * tenTo exponent.toNat) =
    gridFloor rank exponent := rfl
  have hhalf := two_mul_magnitude_iff rank exponent
  unfold onGrid?
  simp only [hfloor]
  split
  · rename_i hbelow
    split
    · rename_i habove
      split
      · exact .inl rfl
      split
      · exact .inl rfl
      split
      · rename_i hlow hhigh heven
        have hequal := Nat.le_antisymm (Nat.not_lt.1 hhigh) (Nat.not_lt.1 hlow)
        exact .inr ⟨heven.2, hhalf.2 hequal, hbelow, habove⟩
      · exact .inl rfl
    · exact .inl rfl
  · exact .inl rfl

/-- **Without an even tie** the shortest decimal is the same whichever way ties go. -/
theorem shortest_eq_or_isTie (hfinite : rank < infinityRank) :
    shortest .toEven rank = shortest .awayFromZero rank ∨
      IsTie rank (shortest .toEven rank) := by
  rcases Nat.eq_zero_or_pos rank with rfl | hrank
  · exact .inl ((shortest_zero _).trans (shortest_zero _).symm)
  obtain ⟨extra, hcoarser, hfirst⟩ := exists_first hrank hfinite
  obtain ⟨below, hbelow, hshortest⟩ := hfirst .toEven
  obtain ⟨above, habove, hshortest'⟩ := hfirst .awayFromZero
  rw [hshortest, hshortest']
  rcases onGrid?_eq_or_isTie rank (leadingOf rank - extra) with hsame | htie
  · rw [hbelow, habove] at hsame
    exact .inl (congrArg trimmed (Option.some.inj hsame))
  · obtain rfl := Option.some.inj (hbelow.symm.trans htie.onGrid?_eq.1)
    have hlast := gridFloor_mod_ten_ne hrank hfinite hcoarser htie.reads
    rw [trimmed_eq_self hlast]
    exact .inr htie

/-- **At an even tie** of the fewest digits there are two shortest decimals. One way takes the lower
and the other the upper one. -/
theorem shortest_of_isTie {d : Decimal} (hfinite : rank < infinityRank) (h : IsTie rank d)
    (hfew : d.written.length ≤ (shortest .toEven rank).written.length) :
    shortest .toEven rank = d ∧ shortest .awayFromZero rank = d.next := by
  have hrank := h.rank_pos
  have hlength := written_length_pos d
  obtain ⟨extra, hcoarser, hfirst⟩ := exists_first hrank hfinite
  obtain ⟨below, hbelow, hshortest⟩ := hfirst .toEven
  obtain ⟨above, habove, hshortest'⟩ := hfirst .awayFromZero
  -- the search stops on the grid of the tie: not later, since that grid is hit, and not earlier
  have hextra : extra = d.written.length - 1 := by
    have hlt : d.digits < 10 ^ (d.written.length - 1 + 1) := by
      rw [Nat.sub_add_cancel hlength]
      exact digits_lt d
    have hhits := hits_of_few hrank hfinite hlt h.reads
    have hdigits := digits_trimmed_onGrid?_lt hrank hbelow
    rw [← hshortest, ← written_length_le_iff _ (Nat.succ_pos extra)] at hdigits
    have hle : extra ≤ d.written.length - 1 := by
      by_contra hlater
      exact hcoarser _ (Nat.not_le.1 hlater) hhits
    omega
  have hgrid : leadingOf rank - extra = d.exponent := by
    rw [h.leadingOf_eq hfinite, hextra, leading]
    omega
  have hlast : d.digits % 10 ≠ 0 := by
    have hreads := h.reads
    rw [← h.gridFloor_eq, ← hgrid]
    refine gridFloor_mod_ten_ne hrank hfinite hcoarser ?_
    rw [hgrid, h.gridFloor_eq]
    exact hreads
  rw [hgrid] at hbelow habove
  obtain rfl := Option.some.inj (hbelow.symm.trans h.onGrid?_eq.1)
  obtain rfl := Option.some.inj (habove.symm.trans h.onGrid?_eq.2)
  have heven := h.even
  rw [hshortest, hshortest', trimmed_eq_self hlast]
  refine ⟨rfl, trimmed_eq_self ?_⟩
  show (below.digits + 1) % 10 ≠ 0
  omega

end ChunkSizing.Decimal
