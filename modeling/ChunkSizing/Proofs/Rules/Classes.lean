import ChunkSizing.Proofs.Binary64.Order
import ChunkSizing.Rules

/-!
# ChunkSizing.Proofs.Rules.Classes — what rules tell apart.

Rules look at a size through the tier it selects and at a measurement through the side of the limits
it is on. `Rules.Selects` and `Adjustment.Alike` say so without the search and without the factors;
two transfers that rules do not tell apart get the same advice (`Rules.Alike.advise_eq`).
-/

namespace ChunkSizing

open Binary64

/-! ## Tiers -/

namespace Rules

variable {rules : Rules} {size size' : Int64} {place : Option Nat}

/-- **The tier that a size selects**, by its place in the list: the first one whose limit is not
exceeded. A size that exceeds every limit, or is compared with none, selects no tier. -/
inductive Selects (rules : Rules) (size : Int64) : Option Nat → Prop where
  | tier {before : List SizeTier} {tier : SizeTier} {after : List SizeTier}
      (htiers : rules.tiers = before ++ tier :: after)
      (hpassed : ∀ earlier ∈ before, ¬ megabytesOf size ≤ earlier.limit)
      (hfits : megabytesOf size ≤ tier.limit) : Selects rules size (some before.length)
  | none (h : ∀ tier ∈ rules.tiers, ¬ megabytesOf size ≤ tier.limit) : Selects rules size none

/-- Every size selects a tier or none. -/
theorem exists_selects (rules : Rules) (size : Int64) : ∃ place, rules.Selects size place := by
  cases hfind : rules.tiers.find? fun tier => decide (megabytesOf size ≤ tier.limit) with
  | none =>
    refine ⟨none, .none ?_⟩
    intro tier htier hfits
    exact List.find?_eq_none.1 hfind tier htier (decide_eq_true hfits)
  | some tier =>
    obtain ⟨hfits, before, after, htiers, hpassed⟩ := List.find?_eq_some_iff_append.1 hfind
    refine ⟨some before.length, .tier htiers ?_ (of_decide_eq_true hfits)⟩
    intro earlier hearlier hle
    have hnot := hpassed earlier hearlier
    simp [hle] at hnot

/-- The base of the tier at a place, or the one behind all tiers. -/
def baseAt (rules : Rules) (place : Option Nat) : Binary64 :=
  ((place.bind fun i => rules.tiers[i]?).map SizeTier.base).getD rules.largestBase

/-- **The base of a size** is that of the tier it selects. -/
theorem Selects.baseFor_eq (h : rules.Selects size place) :
    rules.baseFor (megabytesOf size) = rules.baseAt place := by
  cases h with
  | @tier before tier after htiers hpassed hfits =>
    have hfind : (rules.tiers.find? fun tier => decide (megabytesOf size ≤ tier.limit)) =
        some tier := by
      rw [List.find?_eq_some_iff_append]
      refine ⟨decide_eq_true hfits, before, after, htiers, ?_⟩
      intro earlier hearlier
      simp [hpassed earlier hearlier]
    have hget : rules.tiers[before.length]? = some tier := by
      rw [htiers, List.getElem?_append_right (Nat.le_refl _), Nat.sub_self]
      rfl
    unfold baseFor baseAt
    rw [hfind, Option.bind_some, hget]
    rfl
  | none hnone =>
    have hfind : (rules.tiers.find? fun tier => decide (megabytesOf size ≤ tier.limit)) =
        Option.none := by
      rw [List.find?_eq_none]
      intro tier htier hfits
      exact hnone tier htier (of_decide_eq_true hfits)
    unfold baseFor
    rw [hfind]
    rfl

end Rules

/-! ## Measurements -/

namespace Adjustment

variable {adjustment : Adjustment} {measurement measurement' : Option Binary64}

theorem factor_mem (adjustment : Adjustment) (value? : Option Binary64) :
    adjustment.factor value? ∈ [adjustment.aboveFactor, adjustment.belowFactor, 1] := by
  unfold Adjustment.factor
  split
  · simp
  split
  · simp
  split
  · simp
  · simp

/-- What holds of both factors and of one holds of the factor of a measurement. -/
theorem factor_of_forall {motive : Binary64 → Prop} (habove : motive adjustment.aboveFactor)
    (hbelow : motive adjustment.belowFactor) (hone : motive 1) (value? : Option Binary64) :
    motive (adjustment.factor value?) := by
  have hmem := adjustment.factor_mem value?
  simp only [List.mem_cons, List.not_mem_nil, or_false] at hmem
  rcases hmem with heq | heq | heq <;> rw [heq] <;> assumption

/-- A measurement that nothing is made of: it is absent, or neither above the one limit nor below
the other. -/
def IsNeutral (adjustment : Adjustment) (measurement : Option Binary64) : Prop :=
  ∀ value ∈ measurement, ¬ adjustment.above < value ∧ ¬ value < adjustment.below

/-- **Measurements that are not told apart**: both above the upper limit, or both not above it but
below the lower one, or both neutral. -/
inductive Alike (adjustment : Adjustment) : Option Binary64 → Option Binary64 → Prop where
  | above {value value' : Binary64} (h : adjustment.above < value)
      (h' : adjustment.above < value') : Alike adjustment (some value) (some value')
  | below {value value' : Binary64} (hnot : ¬ adjustment.above < value)
      (h : value < adjustment.below) (hnot' : ¬ adjustment.above < value')
      (h' : value' < adjustment.below) : Alike adjustment (some value) (some value')
  | neutral {measurement measurement' : Option Binary64}
      (h : adjustment.IsNeutral measurement) (h' : adjustment.IsNeutral measurement') :
      Alike adjustment measurement measurement'

theorem isNeutral_none (adjustment : Adjustment) : adjustment.IsNeutral none := by
  intro value hvalue
  cases hvalue

/-- What is no number is neither above nor below anything. -/
theorem isNeutral_nan (adjustment : Adjustment) : adjustment.IsNeutral (some nan) := by
  rintro _ ⟨⟩
  exact ⟨not_lt_nan _, not_nan_lt _⟩

/-- A value between the limits, at a limit included. -/
theorem isNeutral_of_between {value : Binary64} (hlow : adjustment.below ≤ value)
    (hhigh : value ≤ adjustment.above) : adjustment.IsNeutral (some value) := by
  rintro _ ⟨⟩
  exact ⟨not_lt_of_le hhigh, not_lt_of_le hlow⟩

theorem IsNeutral.factor_eq (h : adjustment.IsNeutral measurement) :
    adjustment.factor measurement = 1 := by
  cases measurement with
  | none => rfl
  | some value =>
    obtain ⟨habove, hbelow⟩ := h value rfl
    simp only [factor, habove, hbelow, if_false]

/-- **Measurements that are not told apart** have the same factor. -/
theorem Alike.factor_eq (h : adjustment.Alike measurement measurement') :
    adjustment.factor measurement = adjustment.factor measurement' := by
  cases h with
  | above h h' =>
    simp only [factor, h, h', if_true]
  | below hnot h hnot' h' =>
    simp only [factor, hnot, h, hnot', h', if_true, if_false]
  | neutral h h' => rw [h.factor_eq, h'.factor_eq]

end Adjustment

/-! ## Transfers -/

theorem Rules.estimate_eq (rules : Rules) (size : Int64) (bandwidth latency : Option Binary64) :
    rules.estimator.estimate size bandwidth latency =
      clampChunkSize (rules.product size bandwidth latency) :=
  rfl

/-- **Transfers that rules do not tell apart.** The content type is not mentioned. -/
structure Rules.Alike (rules : Rules) (transfer transfer' : Transfer) : Prop where
  tier : ∃ place, rules.Selects transfer.size place ∧ rules.Selects transfer'.size place
  bandwidth : rules.bandwidth.Alike transfer.bandwidth transfer'.bandwidth
  latency : rules.latency.Alike transfer.latency transfer'.latency

theorem Rules.Alike.advise_eq {rules : Rules} {transfer transfer' : Transfer}
    (h : rules.Alike transfer transfer') :
    rules.estimator.advise transfer = rules.estimator.advise transfer' := by
  obtain ⟨place, hplace, hplace'⟩ := h.tier
  have hproduct : rules.product transfer.size transfer.bandwidth transfer.latency =
      rules.product transfer'.size transfer'.bandwidth transfer'.latency := by
    unfold product
    rw [hplace.baseFor_eq, hplace'.baseFor_eq, h.bandwidth.factor_eq, h.latency.factor_eq]
  exact congrArg (fun product => Advice.mk (clampChunkSize product)) hproduct

end ChunkSizing
