import ChunkSizing.Proofs.Binary64.Order

/-!
# ChunkSizing.Proofs.Binary64.Monotone — operations that keep the order.

Rounding never swaps two results, so what is monotone on exact values is monotone on the format. On
signed ranks this is one fact: a monotone map of ranks that leaves zero alone keeps the order of the
numbers, whatever their signs are (`ofRank_le_of_monotone`). Converting integers, multiplying by a
positive number and dividing by one are such maps, with infinities among the operands. A factor
(`IsFactor`) never makes a NaN of a number, so products with factors can be compared at all.
-/

namespace ChunkSizing.Binary64

variable {x y z : Binary64}

/-! ## The order without what is no number -/

protected theorem le_refl (h : x ≠ nan) : x ≤ x := by
  rw [le_iff_toRat_le h h]

protected theorem le_trans (hxy : x ≤ y) (hyz : y ≤ z) : x ≤ z := by
  obtain ⟨hx, hy⟩ := ne_nan_of_le hxy
  obtain ⟨-, hz⟩ := ne_nan_of_le hyz
  rw [le_iff_toRat_le hx hy] at hxy
  rw [le_iff_toRat_le hy hz] at hyz
  exact (le_iff_toRat_le hx hz).2 (hxy.trans hyz)

protected theorem le_total (hx : x ≠ nan) (hy : y ≠ nan) : x ≤ y ∨ y ≤ x := by
  rw [le_iff_toRat_le hx hy, le_iff_toRat_le hy hx]
  exact le_total x.toRat y.toRat

theorem ne_nan_of_lt (h : x < y) : x ≠ nan ∧ y ≠ nan := by
  constructor
  · rintro rfl
    exact not_nan_lt y h
  · rintro rfl
    exact not_lt_nan x h

protected theorem lt_of_lt_of_le (hxy : x < y) (hyz : y ≤ z) : x < z := by
  obtain ⟨hx, hy⟩ := ne_nan_of_lt hxy
  obtain ⟨-, hz⟩ := ne_nan_of_le hyz
  rw [lt_iff_toRat_lt hx hy] at hxy
  rw [le_iff_toRat_le hy hz] at hyz
  exact (lt_iff_toRat_lt hx hz).2 (hxy.trans_le hyz)

protected theorem lt_of_le_of_lt (hxy : x ≤ y) (hyz : y < z) : x < z := by
  obtain ⟨hx, hy⟩ := ne_nan_of_le hxy
  obtain ⟨-, hz⟩ := ne_nan_of_lt hyz
  rw [le_iff_toRat_le hx hy] at hxy
  rw [lt_iff_toRat_lt hy hz] at hyz
  exact (lt_iff_toRat_lt hx hz).2 (hxy.trans_lt hyz)

/-! ## Maps of ranks -/

theorem ofRank_le_ofRank_iff (s t : Bool) {a b : Nat} (ha : a ≤ infinityRank)
    (hb : b ≤ infinityRank) :
    ofRank s a ≤ ofRank t b ↔ (if s then -(a : ℤ) else a) ≤ if t then -(b : ℤ) else b := by
  show (ofRank s a).isAtMost (ofRank t b) = true ↔ _
  simp only [isAtMost, place_ofRank s ha, place_ofRank t hb, decide_eq_true_eq]

theorem ofRank_min (negative : Bool) (rank : Nat) :
    ofRank negative (min rank infinityRank) = ofRank negative rank := by
  simp only [ofRank, Nat.min_assoc, Nat.min_self]

/-- **A monotone map of ranks that leaves zero alone keeps the order** of signed numbers. -/
theorem ofRank_le_of_monotone {map : Nat → Nat} (hmono : Monotone map) (hzero : map 0 = 0)
    (s t : Bool) {a b : Nat} (h : (if s then -(a : ℤ) else a) ≤ if t then -(b : ℤ) else b) :
    ofRank s (map a) ≤ ofRank t (map b) := by
  rw [← ofRank_min s, ← ofRank_min t,
    ofRank_le_ofRank_iff s t (Nat.min_le_right _ _) (Nat.min_le_right _ _)]
  cases s <;> cases t <;> simp only [Bool.false_eq_true, if_false, if_true] at h ⊢
  · have hmap : map a ≤ map b := hmono (by omega)
    omega
  · -- both are zero here, and both stay zero
    obtain ⟨rfl, rfl⟩ : a = 0 ∧ b = 0 := by omega
    rw [hzero]
    omega
  · omega
  · have hmap : map b ≤ map a := hmono (by omega)
    omega

theorem ofInt_eq (n : ℤ) : ofInt n = ofRank (decide (n < 0)) (rankOf n.natAbs) := by
  rw [rankOf_natCast]
  rfl

/-- **Integers keep their order** when they are rounded. -/
theorem ofInt_mono {m n : ℤ} (h : m ≤ n) : ofInt m ≤ ofInt n := by
  have hmono : Monotone fun n : ℕ => rankOf n := rankOf_mono.comp Nat.mono_cast
  rw [ofInt_eq, ofInt_eq]
  apply ofRank_le_of_monotone hmono rankOf_zero
  simp only [decide_eq_true_eq]
  split <;> split <;> omega

/-! ## Scaling by a positive number -/

/-- **The rank of a scaled magnitude.** Infinity stays what it is, and nothing passes it. -/
def stretched (scale : ℚ) (rank : Nat) : Nat :=
  if infinityRank ≤ rank then infinityRank
  else min (rankOf (magnitude rank * scale)) infinityRank

theorem stretched_of_lt (scale : ℚ) {rank : Nat} (h : rank < infinityRank) :
    stretched scale rank = min (rankOf (magnitude rank * scale)) infinityRank :=
  if_neg (Nat.not_le.2 h)

theorem stretched_zero (scale : ℚ) : stretched scale 0 = 0 := by
  rw [stretched_of_lt scale (by decide), magnitude_zero, zero_mul, ← Nat.cast_zero, rankOf_zero]
  rfl

theorem stretched_le (scale : ℚ) (rank : Nat) : stretched scale rank ≤ infinityRank := by
  unfold stretched
  split
  · exact Nat.le_refl _
  · exact Nat.min_le_right _ _

/-- A larger magnitude and a larger scale give a larger rank. -/
theorem stretched_le_stretched {scale scale' : ℚ} (hscale : 0 ≤ scale) (hle : scale ≤ scale')
    {rank rank' : Nat} (hrank : rank ≤ rank') :
    stretched scale rank ≤ stretched scale' rank' := by
  rcases Nat.lt_or_ge rank' infinityRank with hlt | hge
  · rw [stretched_of_lt scale (Nat.lt_of_le_of_lt hrank hlt), stretched_of_lt scale' hlt]
    have hmagnitude := magnitude_strictMono.monotone hrank
    have hproduct : magnitude rank * scale ≤ magnitude rank' * scale' :=
      mul_le_mul hmagnitude hle hscale (magnitude_nonneg rank')
    exact min_le_min_right _ (rankOf_mono hproduct)
  · rw [show stretched scale' rank' = infinityRank from if_pos hge]
    exact stretched_le scale rank

/-- **A factor**: a positive number that is not infinite. -/
structure IsFactor (x : Binary64) : Prop where
  pos : 0 < x
  isFinite : x.isFinite = true

instance (x : Binary64) : Decidable (IsFactor x) :=
  decidable_of_iff (0 < x ∧ x.isFinite = true)
    ⟨fun h => ⟨h.1, h.2⟩, fun h => ⟨h.pos, h.isFinite⟩⟩

theorem IsFactor.exists_rank {f : Binary64} (h : IsFactor f) :
    ∃ rank, 0 < rank ∧ rank < infinityRank ∧ f = ofRank false rank := by
  obtain ⟨negative, rank, hrank, rfl⟩ := exists_of_isFinite h.isFinite
  have hpos := h.pos
  rw [zero_eq] at hpos
  cases negative with
  | true => exact absurd hpos (not_ofRank_lt_true rank 0)
  | false => exact ⟨rank, (ofRank_lt_iff (by decide) hrank.le).1 hpos, hrank, rfl⟩

theorem mul_ofRank_eq_stretched (s : Bool) {a c : Nat} (ha : a ≤ infinityRank) (hpos : 0 < c)
    (hc : c < infinityRank) :
    ofRank s a * ofRank false c = ofRank s (stretched (magnitude c) a) := by
  rcases Nat.lt_or_eq_of_le ha with hlt | rfl
  · rw [stretched_of_lt _ hlt, ofRank_min, mul_ofRank s false hlt hc, Bool.bne_false]
  · have hne : ¬ (infinityRank = 0 ∨ c = 0) := by omega
    show mul (ofRank s infinityRank) (ofRank false c) = ofRank s (if _ then _ else _)
    simp only [ofRank, mul, Nat.min_eq_left hc.le, Nat.min_self, true_or, if_true, hne, if_false,
      Nat.le_refl, infinity, Bool.bne_false]

theorem div_ofRank_eq_stretched (s : Bool) {a c : Nat} (ha : a ≤ infinityRank) (hpos : 0 < c)
    (hc : c < infinityRank) :
    ofRank s a / ofRank false c = ofRank s (stretched (magnitude c)⁻¹ a) := by
  rcases Nat.lt_or_eq_of_le ha with hlt | rfl
  · rw [stretched_of_lt _ hlt, ofRank_min, div_ofRank s false hlt hc hpos, Bool.bne_false,
      div_eq_mul_inv]
  · show div (ofRank s infinityRank) (ofRank false c) = ofRank s (if _ then _ else _)
    simp only [ofRank, div, Nat.min_eq_left hc.le, Nat.min_self, hc.ne, if_true, if_false,
      Nat.le_refl, infinity, Bool.bne_false]

/-- Scaling keeps the order. -/
theorem ofRank_stretched_mono {scale : ℚ} (hscale : 0 ≤ scale) (s t : Bool) {a b : Nat}
    (ha : a ≤ infinityRank) (hb : b ≤ infinityRank) (h : ofRank s a ≤ ofRank t b) :
    ofRank s (stretched scale a) ≤ ofRank t (stretched scale b) := by
  apply ofRank_le_of_monotone
  · intro low high hle
    exact stretched_le_stretched hscale le_rfl hle
  · exact stretched_zero scale
  · exact (ofRank_le_ofRank_iff s t ha hb).1 h

/-! ## Products and quotients -/

section Factors

variable {f g : Binary64}

/-- **Products with a factor keep the order.** -/
theorem IsFactor.mul_le_mul_right (hf : IsFactor f) (h : x ≤ y) : x * f ≤ y * f := by
  obtain ⟨hx, hy⟩ := ne_nan_of_le h
  obtain ⟨s, a, ha, rfl⟩ := exists_ofRank hx
  obtain ⟨t, b, hb, rfl⟩ := exists_ofRank hy
  obtain ⟨c, hpos, hc, rfl⟩ := hf.exists_rank
  rw [mul_ofRank_eq_stretched s ha hpos hc, mul_ofRank_eq_stretched t hb hpos hc]
  exact ofRank_stretched_mono (magnitude_nonneg c) s t ha hb h

/-- **Quotients by a factor keep the order.** -/
theorem IsFactor.div_le_div_right (hf : IsFactor f) (h : x ≤ y) : x / f ≤ y / f := by
  obtain ⟨hx, hy⟩ := ne_nan_of_le h
  obtain ⟨s, a, ha, rfl⟩ := exists_ofRank hx
  obtain ⟨t, b, hb, rfl⟩ := exists_ofRank hy
  obtain ⟨c, hpos, hc, rfl⟩ := hf.exists_rank
  rw [div_ofRank_eq_stretched s ha hpos hc, div_ofRank_eq_stretched t hb hpos hc]
  exact ofRank_stretched_mono (inv_nonneg.2 (magnitude_nonneg c)) s t ha hb h

/-- **A larger factor gives a larger product**, of what is not below zero. -/
theorem IsFactor.mul_le_mul_left (hf : IsFactor f) (hg : IsFactor g) (hfg : f ≤ g) (hx : 0 ≤ x) :
    x * f ≤ x * g := by
  obtain ⟨-, hne⟩ := ne_nan_of_le hx
  obtain ⟨s, a, ha, rfl⟩ := exists_ofRank hne
  obtain ⟨c, hpos, hc, rfl⟩ := hf.exists_rank
  obtain ⟨d, hpos', hd, rfl⟩ := hg.exists_rank
  rw [zero_eq, ofRank_le_ofRank_iff false s (by decide) ha] at hx
  rw [ofRank_le_iff hc.le hd.le] at hfg
  have hscale := magnitude_strictMono.monotone hfg
  have hle := stretched_le_stretched (magnitude_nonneg c) hscale (Nat.le_refl a)
  rw [mul_ofRank_eq_stretched s ha hpos hc, mul_ofRank_eq_stretched s ha hpos' hd,
    ofRank_le_ofRank_iff s s (stretched_le _ a) (stretched_le _ a)]
  cases s with
  | false =>
    simp only [Bool.false_eq_true, if_false]
    omega
  | true =>
    -- a negative zero is not below zero, and stays zero
    simp only [Bool.false_eq_true, if_false, if_true] at hx
    obtain rfl : a = 0 := by omega
    rw [stretched_zero, stretched_zero]

/-- Both at once. -/
theorem IsFactor.mul_le_mul (hf : IsFactor f) (hg : IsFactor g) (hfg : f ≤ g) (hx : 0 ≤ x)
    (hxy : x ≤ y) : x * f ≤ y * g :=
  Binary64.le_trans (hf.mul_le_mul_left hg hfg hx) (hg.mul_le_mul_right hxy)

theorem IsFactor.zero_mul (hf : IsFactor f) : 0 * f = 0 := by
  obtain ⟨c, hpos, hc, rfl⟩ := hf.exists_rank
  rw [zero_eq, mul_ofRank_eq_stretched false (by decide) hpos hc, stretched_zero]

/-- What is not above zero is not above zero after scaling. -/
theorem IsFactor.mul_le_zero (hf : IsFactor f) (h : x ≤ 0) : x * f ≤ 0 := by
  have hle := hf.mul_le_mul_right h
  rwa [hf.zero_mul] at hle

/-- What is not below zero is not below zero after scaling. -/
theorem IsFactor.mul_nonneg (hf : IsFactor f) (h : 0 ≤ x) : 0 ≤ x * f := by
  have hle := hf.mul_le_mul_right h
  rwa [hf.zero_mul] at hle

end Factors

end ChunkSizing.Binary64
