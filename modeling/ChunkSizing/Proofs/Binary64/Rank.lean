import ChunkSizing.Binary64.Rounding
import Mathlib.Algebra.Order.Ring.Nat
import Mathlib.Order.Monotone.Basic
import Mathlib.Tactic.Positivity
import Mathlib.Tactic.Ring

/-!
# ChunkSizing.Proofs.Binary64.Rank — magnitudes by rank, and the nearest rank.

Two facts about `units` carry everything else: within a binade a rank is a significand at the step
of the binade (`units_of_binade`), and the step to the next rank is a power of two that never
shrinks (`units_succ`). `nearestRank` is described by the two midpoints beside a rank: a quotient
below the midpoint above `rank` goes to `rank` or lower, and one above it goes higher. Exactness on
magnitudes and monotony follow from the midpoints alone; how ties fall is needed only to see that
equal quotients go to equal ranks.
-/

namespace ChunkSizing.Binary64

/-! ## Magnitudes -/

theorem twoTo_eq (exponent : Nat) : twoTo exponent = 2 ^ exponent := rfl

theorem twoTo_add (low high : Nat) : twoTo (low + high) = twoTo low * twoTo high :=
  Nat.pow_add 2 low high

theorem twoTo_pos (exponent : Nat) : 0 < twoTo exponent := Nat.pow_pos (by decide)

/-- A significand of up to 53 bits at the step `2 ^ shift`. The first two binades share the step
one, so only there may the significand be short. -/
theorem units_of_binade {shift significand : Nat} (hle : significand ≤ 2 * binade)
    (hge : shift = 0 ∨ binade ≤ significand) :
    units (shift * binade + significand) = significand * twoTo shift := by
  have hpos : 0 < binade := by decide
  unfold units
  by_cases hsmall : significand < binade
  · obtain rfl : shift = 0 := by omega
    rw [if_pos (by omega)]
    simp [twoTo]
  rw [if_neg (by omega)]
  by_cases hlast : significand = 2 * binade
  · -- the carry out of a binade: the first rank of the next one
    have hrank : shift * binade + significand = (shift + 2) * binade := by
      rw [hlast]
      ring
    rw [hrank, Nat.mul_mod_left, Nat.mul_div_cancel _ hpos, hlast]
    show (binade + 0) * 2 ^ (shift + 1) = 2 * binade * 2 ^ shift
    ring
  · have hrank : shift * binade + significand = (significand - binade) + binade * (shift + 1) := by
      have : significand = (significand - binade) + binade := by omega
      rw [Nat.mul_add, Nat.mul_one, Nat.mul_comm binade shift]
      omega
    have hlt : significand - binade < binade := by omega
    rw [hrank, Nat.add_mul_mod_self_left, Nat.mod_eq_of_lt hlt, Nat.add_mul_div_left _ _ hpos,
      Nat.div_eq_of_lt hlt, Nat.add_sub_cancel' (by omega), Nat.zero_add, Nat.add_sub_cancel]

/-- Every rank has a step and a significand. -/
theorem exists_binade (rank : Nat) : ∃ shift significand, rank = shift * binade + significand ∧
    significand < 2 * binade ∧ (shift = 0 ∨ binade ≤ significand) := by
  by_cases hsmall : rank < 2 * binade
  · exact ⟨0, rank, by omega, hsmall, .inl rfl⟩
  · have hmod := Nat.div_add_mod rank binade
    have hlt := Nat.mod_lt rank (show binade > 0 by decide)
    have hquot : 2 ≤ rank / binade := (Nat.le_div_iff_mul_le (by decide)).2 (by omega)
    refine ⟨rank / binade - 1, binade + rank % binade, ?_, by omega, .inr (by omega)⟩
    rw [Nat.sub_mul, Nat.one_mul, Nat.mul_comm]
    have := Nat.mul_le_mul_left binade hquot
    omega

theorem units_zero : units 0 = 0 := rfl

/-- From one rank to the next. -/
theorem units_succ (rank : Nat) : units (rank + 1) = units rank + twoTo (rank / binade - 1) := by
  obtain ⟨shift, significand, rfl, hlt, hge⟩ := exists_binade rank
  have hstep : (shift * binade + significand) / binade - 1 = shift := by
    rw [Nat.mul_comm shift, Nat.mul_add_div (by decide)]
    have : significand / binade < 2 := Nat.div_lt_of_lt_mul (by omega)
    have : binade ≤ significand → 1 ≤ significand / binade := fun h =>
      (Nat.le_div_iff_mul_le (by decide)).2 (by omega)
    omega
  rw [hstep, units_of_binade (by omega) hge, Nat.add_assoc,
    units_of_binade (by omega) (hge.imp_right fun h => by omega), Nat.add_mul, Nat.one_mul]

theorem units_strictMono : StrictMono units :=
  strictMono_nat_of_lt_succ fun rank => by
    have := twoTo_pos (rank / binade - 1)
    rw [units_succ]
    omega

/-- Steps grow with the rank. -/
theorem step_mono {low high : Nat} (h : low ≤ high) :
    twoTo (low / binade - 1) ≤ twoTo (high / binade - 1) :=
  Nat.pow_le_pow_right (by decide) (Nat.sub_le_sub_right (Nat.div_le_div_right h) 1)

/-! ## The nearest integer -/

section Rounding

variable {num den : Nat}

/-- The nearest integer is at most one half away. -/
theorem roundHalfEven_near (num : Nat) (hden : 0 < den) :
    2 * (roundHalfEven num den * den) ≤ 2 * num + den ∧
    2 * num ≤ 2 * (roundHalfEven num den * den) + den := by
  have hdiv := Nat.div_add_mod num den
  have hmod := Nat.mod_lt num hden
  rw [Nat.mul_comm] at hdiv
  simp only [roundHalfEven]
  split
  · rw [Nat.add_mul, Nat.one_mul]
    omega
  · omega

theorem roundHalfEven_le (num den : Nat) : roundHalfEven num den ≤ num / den + 1 := by
  simp only [roundHalfEven]
  split <;> omega

theorem le_roundHalfEven (num den : Nat) : num / den ≤ roundHalfEven num den := by
  simp only [roundHalfEven]
  split <;> omega

theorem roundHalfEven_scale {factor : Nat} (hfactor : 0 < factor) :
    roundHalfEven (factor * num) (factor * den) = roundHalfEven num den := by
  have hlt (a b : Nat) : factor * a < factor * b ↔ a < b := Nat.mul_lt_mul_left hfactor
  have heq (a b : Nat) : factor * a = factor * b ↔ a = b := Nat.mul_right_inj (by omega)
  simp only [roundHalfEven]
  rw [Nat.mul_div_mul_left _ _ hfactor, Nat.mul_mod_mul_left, Nat.mul_left_comm]
  simp only [hlt, heq]

/-- Half way between two integers the even one is taken. -/
theorem roundHalfEven_of_half {floor : Nat} (hden : 0 < den) (h : 2 * num = (2 * floor + 1) * den) :
    roundHalfEven num den % 2 = 0 := by
  obtain ⟨half, rfl⟩ : ∃ half, den = 2 * half := by
    have hexpand : (2 * floor + 1) * den = 2 * (floor * den) + den := by ring
    exact ⟨num - floor * den, by omega⟩
  have hhalf : num = half + 2 * half * floor := by
    apply Nat.eq_of_mul_eq_mul_left (show 0 < 2 by decide)
    rw [h]
    ring
  have hlt : half < 2 * half := by omega
  have hquot : num / (2 * half) = floor := by
    rw [hhalf, Nat.add_mul_div_left _ _ hden, Nat.div_eq_of_lt hlt, Nat.zero_add]
  have hrest : num % (2 * half) = half := by
    rw [hhalf, Nat.add_mul_mod_self_left, Nat.mod_eq_of_lt hlt]
  unfold roundHalfEven
  dsimp only
  rw [hquot, hrest]
  split <;> omega

/-! ## The nearest rank -/

/-- The step at which a quotient is rounded, with the significand it gets there. -/
theorem exists_nearestRank (num : Nat) (hden : 0 < den) : ∃ shift significand,
    nearestRank num den = shift * binade + significand ∧ significand ≤ 2 * binade ∧
    (shift = 0 ∨ binade ≤ significand ∧ binade * (den * twoTo shift) ≤ num) ∧
    2 * (significand * (den * twoTo shift)) ≤ 2 * num + den * twoTo shift ∧
    2 * num ≤ 2 * (significand * (den * twoTo shift)) + den * twoTo shift := by
  set shift := (num / den).log2 - 52 with hshift
  have hscaled : 0 < den * twoTo shift := Nat.mul_pos hden (twoTo_pos shift)
  have hquot : num / (den * twoTo shift) = num / den / 2 ^ shift := by
    rw [twoTo_eq, Nat.div_div_eq_div_mul]
  obtain ⟨hlow, hhigh⟩ := roundHalfEven_near num hscaled
  have hfloor : num / (den * twoTo shift) < 2 * binade := by
    have hlog : num / den < 2 ^ ((num / den).log2 + 1) := Nat.lt_log2_self
    rw [hquot, Nat.div_lt_iff_lt_mul (by positivity)]
    refine Nat.lt_of_lt_of_le hlog ?_
    show 2 ^ ((num / den).log2 + 1) ≤ 2 ^ 53 * 2 ^ shift
    rw [← Nat.pow_add]
    exact Nat.pow_le_pow_right (by decide) (by omega)
  refine ⟨shift, roundHalfEven num (den * twoTo shift), rfl, ?_, ?_, hlow, hhigh⟩
  · have := roundHalfEven_le num (den * twoTo shift)
    omega
  · by_cases hzero : shift = 0
    · exact .inl hzero
    -- a positive shift was read off a quotient of more than 52 bits
    · have hnorm : binade ≤ num / (den * twoTo shift) := by
        have hne : num / den ≠ 0 := by
          intro h
          rw [h] at hshift
          exact hzero hshift
        rw [hquot, Nat.le_div_iff_mul_le (by positivity)]
        refine Nat.le_trans ?_ (Nat.log2_self_le hne)
        show 2 ^ 52 * 2 ^ shift ≤ _
        rw [← Nat.pow_add]
        exact Nat.pow_le_pow_right (by decide) (by omega)
      refine .inr ⟨hnorm.trans (le_roundHalfEven _ _), ?_⟩
      exact (Nat.le_div_iff_mul_le hscaled).1 hnorm

/-- The midpoint below a result is at most the quotient. -/
theorem midpoint_le_of_succ_eq {rank : Nat} (hden : 0 < den) (h : nearestRank num den = rank + 1) :
    (units rank + units (rank + 1)) * den ≤ 2 * num := by
  obtain ⟨shift, significand, heq, hle, hge, hlow, -⟩ := exists_nearestRank num hden
  have hvalue : units (rank + 1) = significand * twoTo shift := by
    rw [← h, heq, units_of_binade hle (hge.imp_right And.left)]
  by_cases hfirst : shift ≠ 0 ∧ significand = binade
  · -- the result begins a binade, and such a result is never above the quotient
    have hnum := (hge.resolve_left hfirst.1).2
    have hmono := (units_strictMono (Nat.lt_succ_self rank)).le
    rw [hvalue, hfirst.2] at hmono ⊢
    calc (units rank + binade * twoTo shift) * den
        ≤ (binade * twoTo shift + binade * twoTo shift) * den :=
          Nat.mul_le_mul_right _ (Nat.add_le_add_right hmono _)
      _ = 2 * (binade * (den * twoTo shift)) := by ring
      _ ≤ 2 * num := Nat.mul_le_mul_left 2 hnum
  · -- otherwise the rank below has the same step
    have hpos : 0 < significand := by
      rcases hge with rfl | ⟨hge, -⟩
      · omega
      · exact Nat.lt_of_lt_of_le (by decide) hge
    have hbelow : units rank = (significand - 1) * twoTo shift := by
      rw [show rank = shift * binade + (significand - 1) by omega]
      exact units_of_binade (by omega) (by omega)
    obtain ⟨less, rfl⟩ := Nat.exists_eq_add_of_lt hpos
    rw [hbelow, hvalue]
    simp only [Nat.zero_add, Nat.add_sub_cancel] at hlow ⊢
    have hexpand : (less * twoTo shift + (less + 1) * twoTo shift) * den + den * twoTo shift =
        2 * ((less + 1) * (den * twoTo shift)) := by ring
    omega

/-- The midpoint above a result is at least the quotient. -/
theorem le_midpoint_of_eq {rank : Nat} (hden : 0 < den) (h : nearestRank num den = rank) :
    2 * num ≤ (units rank + units (rank + 1)) * den := by
  obtain ⟨shift, significand, heq, hle, hge, -, hhigh⟩ := exists_nearestRank num hden
  have hvalue : units rank = significand * twoTo shift := by
    rw [← h, heq, units_of_binade hle (hge.imp_right And.left)]
  -- a significand rounded up to the next binade only makes the step above wider
  have hstep : twoTo shift ≤ twoTo (rank / binade - 1) := by
    refine Nat.pow_le_pow_right (by decide) ?_
    rcases hge with rfl | ⟨hge, -⟩
    · exact Nat.zero_le _
    · have : shift + 1 ≤ rank / binade := by
        rw [Nat.le_div_iff_mul_le (by decide), Nat.add_mul, Nat.one_mul]
        omega
      omega
  calc 2 * num ≤ 2 * (significand * (den * twoTo shift)) + den * twoTo shift := hhigh
    _ = (significand * twoTo shift + (significand * twoTo shift + twoTo shift)) * den := by ring
    _ ≤ (units rank + units (rank + 1)) * den := by
      rw [units_succ, hvalue]
      gcongr

/-- **Below a midpoint.** A quotient below the midpoint of `rank` and the next rank is not rounded
past `rank`. -/
theorem nearestRank_le_of_lt_midpoint {rank : Nat} (hden : 0 < den)
    (h : 2 * num < (units rank + units (rank + 1)) * den) : nearestRank num den ≤ rank := by
  by_contra hlt
  obtain ⟨more, hmore⟩ := Nat.exists_eq_add_of_lt (Nat.not_le.1 hlt)
  have hmid := midpoint_le_of_succ_eq hden hmore
  have hlow : units rank ≤ units (rank + more) := units_strictMono.monotone (by omega)
  have hhigh : units (rank + 1) ≤ units (rank + more + 1) := units_strictMono.monotone (by omega)
  have := Nat.mul_le_mul_right den (Nat.add_le_add hlow hhigh)
  omega

/-- **Above a midpoint.** A quotient above the midpoint of `rank` and the next rank is rounded past
`rank`. -/
theorem lt_nearestRank_of_midpoint_lt {rank : Nat} (hden : 0 < den)
    (h : (units rank + units (rank + 1)) * den < 2 * num) : rank < nearestRank num den := by
  by_contra hle
  have hmid := le_midpoint_of_eq hden (Eq.refl (nearestRank num den))
  have hlow : units (nearestRank num den) ≤ units rank := units_strictMono.monotone (by omega)
  have hhigh : units (nearestRank num den + 1) ≤ units (rank + 1) :=
    units_strictMono.monotone (by omega)
  have := Nat.mul_le_mul_right den (Nat.add_le_add hlow hhigh)
  omega

/-- **At a midpoint** the even one of the two ranks is taken. -/
theorem nearestRank_of_midpoint {rank : Nat} (hden : 0 < den)
    (h : 2 * num = (units rank + units (rank + 1)) * den) : nearestRank num den % 2 = 0 := by
  obtain ⟨shift, significand, rfl, hlt, hge⟩ := exists_binade rank
  have hlow := units_of_binade hlt.le hge
  have htwice : 2 * num = (2 * significand + 1) * (den * twoTo shift) := by
    rw [h, hlow, Nat.add_assoc, units_of_binade (by omega) (hge.imp_right fun h => by omega)]
    ring
  have hscaled : 0 < den * twoTo shift := Nat.mul_pos hden (twoTo_pos shift)
  -- the quotient lies between the two ranks, so it is rounded at their step
  have hshift : (num / den).log2 - 52 = shift := by
    have hexpand : (2 * significand + 1) * (den * twoTo shift) =
        2 * (significand * twoTo shift * den) + twoTo shift * den := by ring
    have hfloor : significand * twoTo shift ≤ num / den := by
      rw [Nat.le_div_iff_mul_le hden]
      omega
    have hceiling : num / den < (significand + 1) * twoTo shift := by
      rw [Nat.div_lt_iff_lt_mul hden, Nat.add_mul, Nat.one_mul, Nat.add_mul]
      have hstep : 0 < twoTo shift * den := Nat.mul_pos (twoTo_pos shift) hden
      omega
    have hbeyond : num / den < 2 ^ (shift + 53) := by
      refine hceiling.trans_le ?_
      rw [Nat.pow_add, Nat.mul_comm]
      exact Nat.mul_le_mul_left _ (show significand + 1 ≤ 2 * binade by omega)
    by_cases hzero : num / den = 0
    · have hnone : significand = 0 := by
        rw [hzero, Nat.le_zero, Nat.mul_eq_zero] at hfloor
        exact hfloor.resolve_right (twoTo_pos shift).ne'
      rw [hzero, hge.resolve_right (by omega)]
      rfl
    · have hlog : (num / den).log2 < shift + 53 := (Nat.log2_lt hzero).2 hbeyond
      rcases hge with rfl | hge
      · omega
      · have hwithin : 2 ^ (shift + 52) ≤ num / den := by
          refine le_trans ?_ hfloor
          rw [Nat.pow_add, Nat.mul_comm]
          exact Nat.mul_le_mul_right _ hge
        have hlog' := (Nat.le_log2 hzero).2 hwithin
        omega
  have heven := roundHalfEven_of_half hscaled htwice
  have hbinade : binade % 2 = 0 := by decide
  unfold nearestRank
  dsimp only
  rw [hshift, Nat.add_mod, Nat.mul_mod, hbinade, heven, Nat.mul_zero]

/-! ## Rounding as a map of quotients -/

/-- Only the quotient counts. -/
theorem nearestRank_scale (num den : Nat) {factor : Nat} (hfactor : 0 < factor) :
    nearestRank (factor * num) (factor * den) = nearestRank num den := by
  simp only [nearestRank]
  rw [Nat.mul_div_mul_left _ _ hfactor, Nat.mul_assoc, roundHalfEven_scale hfactor]

/-- **Rounding is monotone** in the quotient. -/
theorem nearestRank_mono {num' den' : Nat} (hden : 0 < den) (hden' : 0 < den')
    (h : num * den' ≤ num' * den) : nearestRank num den ≤ nearestRank num' den' := by
  rcases Nat.lt_or_eq_of_le h with hlt | heq
  · -- were the results the other way round, both quotients would be at the midpoints between them
    by_contra hgt
    have hup := Nat.not_lt.1 (mt (nearestRank_le_of_lt_midpoint hden) hgt)
    have hdown := le_midpoint_of_eq hden' (Eq.refl (nearestRank num' den'))
    have hleft := Nat.mul_le_mul_right den' hup
    have hright := Nat.mul_le_mul_right den hdown
    rw [Nat.mul_right_comm] at hleft
    rw [Nat.mul_assoc 2] at hleft hright
    omega
  · rw [← nearestRank_scale num den hden', ← nearestRank_scale num' den' hden,
      Nat.mul_comm den', heq, Nat.mul_comm den num', Nat.mul_comm den' den]

/-- **Rounding is exact** on the magnitudes of the format. -/
theorem nearestRank_units (rank : Nat) (hden : 0 < den) :
    nearestRank (units rank * den) den = rank := by
  have hsucc := units_strictMono (Nat.lt_add_one rank)
  refine Nat.le_antisymm (nearestRank_le_of_lt_midpoint hden ?_) ?_
  · rw [Nat.two_mul, ← Nat.add_mul]
    exact Nat.mul_lt_mul_of_pos_right (by omega) hden
  · cases rank with
    | zero => exact Nat.zero_le _
    | succ rank =>
      refine lt_nearestRank_of_midpoint_lt hden ?_
      have := units_strictMono (Nat.lt_add_one rank)
      rw [Nat.two_mul, ← Nat.add_mul]
      exact Nat.mul_lt_mul_of_pos_right (by omega) hden

end Rounding

/-! ## Quick evaluation -/

theorem log2_div_twoTo {exponent n : Nat} (h : twoTo exponent ≤ n) :
    (n / twoTo exponent).log2 + exponent = n.log2 := by
  have hpos := twoTo_pos exponent
  have hne : n / twoTo exponent ≠ 0 := (Nat.div_pos h hpos).ne'
  obtain ⟨hlow, hhigh⟩ := (Nat.log2_eq_iff hne).1 rfl
  symm
  rw [Nat.log2_eq_iff (Nat.lt_of_lt_of_le hpos h).ne']
  constructor
  · rw [Nat.pow_add]
    exact (Nat.le_div_iff_mul_le hpos).1 hlow
  · rw [Nat.add_right_comm, Nat.pow_add]
    exact (Nat.div_lt_iff_lt_mul hpos).1 hhigh

/-- The place of the highest bit. The quotients that are rounded are counted in units of
`unitsPerOne`, so the first 1024 places are passed in one step. -/
def highestBit (n : Nat) : Nat :=
  if n < twoTo 1024 then n.log2 else (n / twoTo 1024).log2 + 1024

theorem highestBit_eq (n : Nat) : highestBit n = n.log2 := by
  unfold highestBit
  split
  · rfl
  · rename_i h
    exact log2_div_twoTo (Nat.not_lt.1 h)

/-- **The nearest rank, quick to evaluate.** -/
def quickRank (num den : Nat) : Nat :=
  let shift := highestBit (num / den) - 52
  shift * binade + roundHalfEven num (den * twoTo shift)

theorem quickRank_eq (num den : Nat) : quickRank num den = nearestRank num den := by
  unfold quickRank nearestRank
  rw [highestBit_eq]

end ChunkSizing.Binary64
