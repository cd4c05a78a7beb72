import ChunkSizing.Proofs.Binary64.Doubling
import ChunkSizing.Proofs.Rules.Growth
import ChunkSizing.Proofs.Rules.Rereading
import ChunkSizing.Proofs.Transfer.Bytes
import ChunkSizing.Proofs.Transfer.Format

/-!
# ChunkSizing.Proofs.Rules.Exact — the standard rules on exact numbers.

A size is rounded twice before it is compared with a limit, once as an integer and once as a
quotient. Neither moves it across a limit of whole megabytes: the bytes of the limit and the byte
behind it have exact quotients, and every other size is on one side of the two
(`megabytesOf_le_iff`). So the standard rules are what they are on whole bytes and exact
measurements, up to the product of the base and the factors; that product needs no clamping, and it
survives being written and read.
-/

namespace ChunkSizing

open Binary64

/-! ## Sizes -/

theorem Binary64.toRat_ofNat {n : Nat} (h : n ≤ 2 ^ 53) :
    (OfNat.ofNat n : Binary64).toRat = n := by
  have hrank : rankOf n < infinityRank := rankOf_lt_of_word (Nat.lt_of_le_of_lt h (by decide))
  rw [ofNat_eq, toRat_ofRank false hrank.le, if_neg Bool.false_ne_true, magnitude_rankOf_natCast h]

theorem Binary64.ofNat_ne_nan (n : Nat) : (OfNat.ofNat n : Binary64) ≠ nan := by
  rw [ofNat_eq]
  exact ofRank_ne_nan false _

namespace Rules

/-- **Up to `2 ^ 53` bytes nothing is rounded.** -/
theorem toRat_quotient {bytes : Nat} (h : bytes ≤ 2 ^ 53) :
    (ofInt bytes / bytesPerMegabyte).toRat = (bytes : ℚ) / 1048576 := by
  have hrank : rankOf bytes < infinityRank :=
    rankOf_lt_of_word (Nat.lt_of_le_of_lt h (by decide))
  have hscale : ((1048576 : ℕ) : ℚ) = (twoTo 20 : ℕ) := rfl
  have hquotient : magnitude (rankOf (bytes / (twoTo 20 : ℕ))) = bytes / (twoTo 20 : ℕ) :=
    magnitude_rankOf_div h (by decide)
  have hle : rankOf (bytes / (twoTo 20 : ℕ)) ≤ rankOf bytes := by
    apply rankOf_mono
    apply div_le_self (Nat.cast_nonneg bytes)
    exact_mod_cast twoTo_pos 20
  rw [ofInt_natCast, bytesPerMegabyte_eq, div_ofRank false false hrank (by decide) (by decide),
    magnitude_rankOf_natCast h, magnitude_megabyteRank, hscale,
    toRat_ofRank _ (hle.trans hrank.le), hquotient]
  norm_num [twoTo_eq]

/-- **Roundings keep a size on its side of a limit** of whole megabytes. -/
theorem megabytesOf_le_iff {limit : Nat} (h : limit * 1048576 < 2 ^ 53) (size : Int64) :
    megabytesOf size ≤ OfNat.ofNat limit ↔ size.toInt ≤ limit * 1048576 := by
  have hlimit : (OfNat.ofNat limit : Binary64).toRat = limit := toRat_ofNat (by omega)
  have hnumber := ofNat_ne_nan limit
  have hmono {m n : ℤ} (hle : m ≤ n) : ofInt m / bytesPerMegabyte ≤ ofInt n / bytesPerMegabyte :=
    isFactor_bytesPerMegabyte.div_le_div_right (ofInt_mono hle)
  constructor
  · intro hfits
    by_contra hgt
    -- the byte behind the limit is above it, and the size is not below that byte
    have hnext := toRat_quotient (show limit * 1048576 + 1 ≤ 2 ^ 53 by omega)
    have hstep : ofInt (limit * 1048576 + 1 : ℕ) / bytesPerMegabyte ≤ megabytesOf size :=
      hmono (by push_cast; omega)
    have hle := Binary64.le_trans hstep hfits
    rw [le_iff_toRat_le (ne_nan_of_le hle).1 hnumber, hnext, hlimit] at hle
    push_cast at hle
    linarith
  · intro hsize
    have hbytes := toRat_quotient (show limit * 1048576 ≤ 2 ^ 53 by omega)
    have hstep : megabytesOf size ≤ ofInt (limit * 1048576 : ℕ) / bytesPerMegabyte :=
      hmono (by push_cast; omega)
    refine Binary64.le_trans hstep ?_
    rw [le_iff_toRat_le (ne_nan_of_le hstep).2 hnumber, hbytes, hlimit]
    push_cast
    linarith

/-! ## The standard rules, in whole bytes and exact measurements -/

/-- The base for a file of so many bytes. -/
def standardBase (bytes : ℤ) : Binary64 :=
  if bytes ≤ 104857600 then 8
  else if bytes ≤ 1073741824 then 32
  else if bytes ≤ 10737418240 then 64
  else 128

/-- A factor by the exact value of a measurement. A measurement that is absent or no number leaves
the chunk size alone. -/
def factorAt (above : ℚ) (aboveFactor : Binary64) (below : ℚ) (belowFactor : Binary64) :
    Option Binary64 → Binary64
  | none => 1
  | some value =>
    if value = nan then 1
    else if above < value.toRat then aboveFactor
    else if value.toRat < below then belowFactor
    else 1

/-- The factor of a bandwidth. -/
def standardBandwidthFactor : Option Binary64 → Binary64 :=
  factorAt 200 (decimal 15 1) 20 (decimal 75 2)

/-- The factor of a latency. -/
def standardLatencyFactor : Option Binary64 → Binary64 :=
  factorAt 100 (decimal 125 2) 20 (decimal 9 1)

/-- **No size is rounded into another tier.** -/
theorem standard_baseFor (size : Int64) :
    standard.baseFor (megabytesOf size) = standardBase size.toInt := by
  have hfirst := megabytesOf_le_iff (show 100 * 1048576 < 2 ^ 53 by decide) size
  have hsecond := megabytesOf_le_iff (show 1024 * 1048576 < 2 ^ 53 by decide) size
  have hthird := megabytesOf_le_iff (show 10240 * 1048576 < 2 ^ 53 by decide) size
  show (standard.withTiers [⟨100, 8⟩, ⟨1024, 32⟩, ⟨10240, 64⟩]).baseFor _ = _
  simp only [baseFor_withTiers_cons, baseFor_withTiers_nil, hfirst, hsecond, hthird]
  rfl

/-- Comparing with limits that are numbers is comparing exact values. -/
theorem factor_eq_factorAt (adjustment : Adjustment) (habove : adjustment.above ≠ nan)
    (hbelow : adjustment.below ≠ nan) (measurement : Option Binary64) :
    adjustment.factor measurement = factorAt adjustment.above.toRat adjustment.aboveFactor
      adjustment.below.toRat adjustment.belowFactor measurement := by
  cases measurement with
  | none => rfl
  | some value =>
    by_cases hvalue : value = nan
    · subst hvalue
      exact adjustment.isNeutral_nan.factor_eq
    · simp only [Adjustment.factor, factorAt, hvalue, if_false, lt_iff_toRat_lt habove hvalue,
        lt_iff_toRat_lt hvalue hbelow]

theorem standard_bandwidth_factor (measurement : Option Binary64) :
    standard.bandwidth.factor measurement = standardBandwidthFactor measurement := by
  have habove : (200 : Binary64).toRat = (200 : ℕ) := toRat_ofNat (by decide)
  have hbelow : (20 : Binary64).toRat = (20 : ℕ) := toRat_ofNat (by decide)
  rw [factor_eq_factorAt _ (ofNat_ne_nan 200) (ofNat_ne_nan 20)]
  show factorAt (200 : Binary64).toRat _ (20 : Binary64).toRat _ _ = _
  rw [habove, hbelow]
  rfl

theorem standard_latency_factor (measurement : Option Binary64) :
    standard.latency.factor measurement = standardLatencyFactor measurement := by
  have habove : (100 : Binary64).toRat = (100 : ℕ) := toRat_ofNat (by decide)
  have hbelow : (20 : Binary64).toRat = (20 : ℕ) := toRat_ofNat (by decide)
  rw [factor_eq_factorAt _ (ofNat_ne_nan 100) (ofNat_ne_nan 20)]
  show factorAt (100 : Binary64).toRat _ (20 : Binary64).toRat _ _ = _
  rw [habove, hbelow]
  rfl

/-! ## Products -/

theorem standard_enclosesOne :
    standard.bandwidth.EnclosesOne ∧ standard.latency.EnclosesOne := by
  refine ⟨⟨⟨?_, ?_⟩, ?_, ?_⟩, ⟨⟨?_, ?_⟩, ?_, ?_⟩⟩ <;> decide +kernel

/-- **Products of the standard rules** lie between that of the least base with the two factors for
low measurements and that of the greatest base with those for high ones. -/
theorem standard_product_mem (size : Int64) (bandwidth latency : Option Binary64) :
    decimal 54 1 ≤ standard.product size bandwidth latency ∧
      standard.product size bandwidth latency ≤ 240 := by
  obtain ⟨hbandwidth, hlatency⟩ := standard_enclosesOne
  have hnonneg : (0 : Binary64) ≤ 8 := by decide +kernel
  have hbases : ∀ base ∈ standard.largestBase :: standard.tiers.map SizeTier.base,
      8 ≤ base ∧ base ≤ 128 := by decide +kernel
  have hleast : decimal 54 1 ≤
      8 * standard.bandwidth.belowFactor * standard.latency.belowFactor := by
    decide +kernel
  have hgreatest : 128 * standard.bandwidth.aboveFactor * standard.latency.aboveFactor ≤ 240 := by
    decide +kernel
  obtain ⟨hlow, hhigh⟩ := product_mem hbandwidth hlatency hnonneg hbases size bandwidth latency
  exact ⟨Binary64.le_trans hleast hlow, Binary64.le_trans hhigh hgreatest⟩

/-- Clamping changes no product of the standard rules. -/
theorem standard_estimate_eq_product (size : Int64) (bandwidth latency : Option Binary64) :
    standard.estimator.estimate size bandwidth latency =
      standard.product size bandwidth latency := by
  obtain ⟨hlow, hhigh⟩ := standard_product_mem size bandwidth latency
  have hends : leastChunkSize ≤ decimal 54 1 ∧ 240 ≤ greatestChunkSize := by decide +kernel
  have hnumber := (ne_nan_of_le hhigh).1
  rw [estimate_eq]
  exact clamp_of_mem hnumber ((least_le_iff hnumber).1 (Binary64.le_trans hends.1 hlow))
    ((le_greatest_iff hnumber).1 (Binary64.le_trans hhigh hends.2))

/-- The text of an estimate is read back as the same number, and that is usable. -/
theorem standard_parse_estimate (size : Int64) (bandwidth latency : Option Binary64)
    (spacing : Json.Spacing) :
    let advice : Advice := ⟨standard.estimator.estimate size bandwidth latency⟩
    Advice.format.parse (Utf8.encode (advice.toDocument.chars spacing)) = .ok advice ∧
      advice.check = .ok () := by
  intro advice
  obtain ⟨rank, hrange, hclamp⟩ :=
    exists_rank_of_clamp (standard.product size bandwidth latency)
  have hadvice : advice = ⟨ofRank false rank⟩ := by
    rw [← hclamp, ← estimate_eq]
  have hreread := reread_estimate size bandwidth latency
  rw [estimate_eq, hclamp] at hreread
  have hfinite : (ofRank false rank).isFinite = true := by
    rw [isFinite_ofRank]
    exact decide_eq_true hrange.lt
  rw [hadvice, Advice.parse_toDocument ⟨ofRank false rank⟩ spacing hfinite, hreread]
  exact ⟨rfl, hrange.check⟩

/-- **The standard rules, exactly.** The base is that of the whole number of bytes and the factors
are those of the exact measurements; their product, in this order, is the estimate and lies between
5.4 and 240. Its text is read back as the same number in either spacing, and that is usable. -/
theorem standard_estimate_exact (size : Int64) (bandwidth latency : Option Binary64) :
    let product := standardBase size.toInt * standardBandwidthFactor bandwidth *
      standardLatencyFactor latency
    let estimate := standard.estimator.estimate size bandwidth latency
    standard.baseFor (megabytesOf size) = standardBase size.toInt ∧
    estimate = product ∧ (decimal 54 1 ≤ product ∧ product ≤ 240) ∧
    (∀ spacing, Advice.format.parse (Utf8.encode ((Advice.toDocument ⟨estimate⟩).chars spacing)) =
      .ok ⟨estimate⟩) ∧
    Advice.check ⟨estimate⟩ = .ok () := by
  intro product estimate
  have hproduct : standard.product size bandwidth latency = product := by
    unfold Rules.product
    rw [standard_baseFor, standard_bandwidth_factor, standard_latency_factor]
  have hmem := standard_product_mem size bandwidth latency
  rw [hproduct] at hmem
  have hestimate : estimate = product :=
    (standard_estimate_eq_product size bandwidth latency).trans hproduct
  have hparse := standard_parse_estimate size bandwidth latency
  exact ⟨standard_baseFor size, hestimate, hmem, fun spacing => (hparse spacing).1,
    (hparse .compact).2⟩

end Rules

end ChunkSizing
