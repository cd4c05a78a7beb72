import ChunkSizing.Proofs.Binary64.Monotone
import ChunkSizing.Rules

/-!
# ChunkSizing.Proofs.Rules.Search — what the search for a tier finds.

Tiers are searched in the order in which they stand, and nothing makes their limits ascend. A tier
whose limit is no number, or is not above the limit of a tier in front of it, is never found: what
fits into it has fitted before. The search finds the same without such tiers
(`baseFor_effectiveBehind`), the others ascend (`increasing_effectiveBehind`), and among ascending
limits the first that is not exceeded is the least one (`isTightest_of_increasing`).
-/

namespace ChunkSizing

open Binary64

/-! ## Shadowed tiers -/

namespace SizeTier

/-- **A tier that is never found** behind the tiers `earlier`: its limit is no number, or one of
them reaches as far. -/
def IsShadowed (tier : SizeTier) (earlier : List SizeTier) : Prop :=
  tier.limit = nan ∨ ∃ other ∈ earlier, tier.limit ≤ other.limit

instance (tier : SizeTier) (earlier : List SizeTier) : Decidable (tier.IsShadowed earlier) :=
  inferInstanceAs (Decidable (_ ∨ _))

variable {tier other : SizeTier} {earlier : List SizeTier} {megabytes : Binary64}

/-- What exceeds the tiers in front exceeds a shadowed tier as well. -/
theorem IsShadowed.not_le (h : tier.IsShadowed earlier)
    (hpassed : ∀ other ∈ earlier, ¬ megabytes ≤ other.limit) : ¬ megabytes ≤ tier.limit := by
  intro hfits
  rcases h with hnan | ⟨other, hother, hle⟩
  · exact (ne_nan_of_le hfits).2 hnan
  · exact hpassed other hother (Binary64.le_trans hfits hle)

theorem IsShadowed.cons (h : tier.IsShadowed earlier) (other : SizeTier) :
    tier.IsShadowed (other :: earlier) := by
  rcases h with hnan | ⟨shadow, hshadow, hle⟩
  · exact .inl hnan
  · exact .inr ⟨shadow, List.mem_cons_of_mem _ hshadow, hle⟩

/-- A tier that is not shadowed reaches farther than each one in front of it. -/
theorem limit_lt_of_not_isShadowed (h : ¬ tier.IsShadowed earlier) (hother : other ∈ earlier)
    (hnumber : other.limit ≠ nan) : other.limit < tier.limit := by
  obtain ⟨hne, hnot⟩ := not_or.1 h
  rw [lt_iff_not_le hnumber hne]
  intro hle
  exact hnot ⟨other, hother, hle⟩

end SizeTier

namespace Rules

/-! ## The search, tier by tier -/

/-- The same rules over other tiers. -/
def withTiers (rules : Rules) (tiers : List SizeTier) : Rules := { rules with tiers := tiers }

variable {rules : Rules} {tier : SizeTier} {tiers earlier : List SizeTier} {megabytes : Binary64}

@[simp]
theorem baseFor_withTiers_nil : (rules.withTiers []).baseFor megabytes = rules.largestBase := rfl

@[simp]
theorem baseFor_withTiers_cons : (rules.withTiers (tier :: tiers)).baseFor megabytes =
    if megabytes ≤ tier.limit then tier.base else (rules.withTiers tiers).baseFor megabytes := by
  unfold baseFor withTiers
  by_cases hfits : megabytes ≤ tier.limit
  · simp only [List.find?_cons, hfits, decide_true, if_true]
  · simp only [List.find?_cons, hfits, decide_false, if_false]

theorem baseFor_mem (rules : Rules) (megabytes : Binary64) :
    rules.baseFor megabytes ∈ rules.largestBase :: rules.tiers.map SizeTier.base := by
  unfold baseFor
  split
  · rename_i tier hfound
    exact List.mem_cons_of_mem _ (List.mem_map_of_mem (List.mem_of_find?_eq_some hfound))
  · exact List.mem_cons_self

/-- What holds of every base holds of the one that is found. -/
theorem baseFor_of_forall {motive : Binary64 → Prop} (rules : Rules)
    (htiers : ∀ tier ∈ rules.tiers, motive tier.base) (hlargest : motive rules.largestBase)
    (megabytes : Binary64) : motive (rules.baseFor megabytes) := by
  rcases List.mem_cons.1 (rules.baseFor_mem megabytes) with heq | hmem
  · rw [heq]
    exact hlargest
  · obtain ⟨tier, htier, heq⟩ := List.mem_map.1 hmem
    rw [← heq]
    exact htiers tier htier

/-! ## Effective tiers -/

/-- Each limit is below the limits behind it. -/
def Increasing (tiers : List SizeTier) : Prop :=
  tiers.Pairwise fun tier next => tier.limit < next.limit

/-- The tiers that can be found behind the tiers `earlier`. -/
def effectiveBehind (earlier : List SizeTier) : List SizeTier → List SizeTier
  | [] => []
  | tier :: later =>
    if tier.IsShadowed earlier then effectiveBehind (tier :: earlier) later
    else tier :: effectiveBehind (tier :: earlier) later

/-- **The effective tiers**: without those whose limit is no number or at most the limit of a tier
in front. -/
def effective (tiers : List SizeTier) : List SizeTier := effectiveBehind [] tiers

/-- **Without shadowed tiers the search finds the same.** The tiers that it has passed are those
that `megabytes` exceeds, so none of the tiers left out is one that fits. -/
theorem baseFor_effectiveBehind (hpassed : ∀ other ∈ earlier, ¬ megabytes ≤ other.limit) :
    (rules.withTiers (effectiveBehind earlier tiers)).baseFor megabytes =
      (rules.withTiers tiers).baseFor megabytes := by
  induction tiers generalizing earlier with
  | nil => rfl
  | cons tier later ih =>
    rw [effectiveBehind, baseFor_withTiers_cons]
    by_cases hfits : megabytes ≤ tier.limit
    · have hkept : ¬ tier.IsShadowed earlier := fun hshadowed => hshadowed.not_le hpassed hfits
      rw [if_neg hkept, baseFor_withTiers_cons, if_pos hfits, if_pos hfits]
    · have hlater := ih (List.forall_mem_cons.2 ⟨hfits, hpassed⟩)
      rw [if_neg hfits]
      split
      · exact hlater
      · rw [baseFor_withTiers_cons, if_neg hfits, hlater]

theorem not_isShadowed_of_mem (h : tier ∈ effectiveBehind earlier tiers) :
    ¬ tier.IsShadowed earlier := by
  induction tiers generalizing earlier with
  | nil => cases h
  | cons first later ih =>
    have hlater (hmem : tier ∈ effectiveBehind (first :: earlier) later) :
        ¬ tier.IsShadowed earlier := fun hshadowed => ih hmem (hshadowed.cons first)
    rw [effectiveBehind] at h
    split at h
    · exact hlater h
    · rename_i hkept
      rcases List.mem_cons.1 h with rfl | hmem
      · exact hkept
      · exact hlater hmem

/-- **The limits of effective tiers increase.** -/
theorem increasing_effectiveBehind (earlier tiers : List SizeTier) :
    Increasing (effectiveBehind earlier tiers) := by
  induction tiers generalizing earlier with
  | nil => exact .nil
  | cons tier later ih =>
    rw [effectiveBehind]
    split
    · exact ih _
    · rename_i hkept
      refine List.pairwise_cons.2 ⟨?_, ih _⟩
      intro next hnext
      apply SizeTier.limit_lt_of_not_isShadowed (not_isShadowed_of_mem hnext) List.mem_cons_self
      exact fun hnan => hkept (.inl hnan)

/-! ## Ascending tiers -/

/-- **Strictly ascending tiers.** From two tiers on, limits that increase are numbers; a single
limit that is no number stands in no order. -/
structure Ascending (tiers : List SizeTier) : Prop where
  isNumber : ∀ tier ∈ tiers, tier.limit ≠ nan
  increasing : Increasing tiers

/-- A lone limit that is no number is all that increases and does not ascend. -/
theorem ascending_of_increasing (h : Increasing tiers) :
    Ascending tiers ∨ ∃ base, tiers = [⟨nan, base⟩] := by
  cases tiers with
  | nil => exact .inl ⟨List.forall_mem_nil _, h⟩
  | cons tier later =>
    obtain ⟨limit, base⟩ := tier
    obtain ⟨hfirst, -⟩ := List.pairwise_cons.1 h
    have hlater : ∀ next ∈ later, next.limit ≠ nan := by
      intro next hnext
      exact (ne_nan_of_lt (hfirst next hnext)).2
    by_cases hnumber : limit = nan
    · -- nothing is above it, so nothing stands behind it
      subst hnumber
      have halone : later = [] := by
        apply List.eq_nil_iff_forall_not_mem.2
        intro next hnext
        exact not_nan_lt _ (hfirst next hnext)
      rw [halone]
      exact .inr ⟨base, rfl⟩
    · exact .inl ⟨List.forall_mem_cons.2 ⟨hnumber, hlater⟩, h⟩

/-- Where each limit is above the limits in front of it, no tier is shadowed. -/
theorem effectiveBehind_of_ascending (hascending : Ascending tiers)
    (hearlier : ∀ other ∈ earlier, ∀ tier ∈ tiers, other.limit < tier.limit) :
    effectiveBehind earlier tiers = tiers := by
  induction tiers generalizing earlier with
  | nil => rfl
  | cons tier later ih =>
    obtain ⟨hnumber, hnumbers⟩ := List.forall_mem_cons.1 hascending.isNumber
    obtain ⟨hnext, hincreasing⟩ := List.pairwise_cons.1 hascending.increasing
    have hkept : ¬ tier.IsShadowed earlier := by
      rintro (hnan | ⟨other, hother, hle⟩)
      · exact hnumber hnan
      · exact not_lt_of_le hle (hearlier other hother tier List.mem_cons_self)
    rw [effectiveBehind, if_neg hkept, ih ⟨hnumbers, hincreasing⟩]
    refine List.forall_mem_cons.2 ⟨hnext, ?_⟩
    intro other hother next hmem
    exact hearlier other hother next (List.mem_cons_of_mem _ hmem)

/-- **The base of the tightest tier**: of the tier whose limit is the least among those that are not
exceeded, or the largest base if every limit is. -/
inductive IsTightest (tiers : List SizeTier) (largest megabytes base : Binary64) : Prop where
  | tier {tier : SizeTier} (hmem : tier ∈ tiers) (hfits : megabytes ≤ tier.limit)
      (hleast : ∀ other ∈ tiers, megabytes ≤ other.limit → other = tier ∨ tier.limit < other.limit)
      (hbase : base = tier.base)
  | none (hnone : ∀ tier ∈ tiers, ¬ megabytes ≤ tier.limit) (hbase : base = largest)

/-- **Among increasing limits the first that is not exceeded is the least one.** -/
theorem isTightest_of_increasing (rules : Rules) (megabytes : Binary64) (h : Increasing tiers) :
    IsTightest tiers rules.largestBase megabytes ((rules.withTiers tiers).baseFor megabytes) := by
  induction tiers with
  | nil => exact .none (List.forall_mem_nil _) rfl
  | cons tier later ih =>
    obtain ⟨hnext, hlater⟩ := List.pairwise_cons.1 h
    rw [baseFor_withTiers_cons]
    split
    · rename_i hfits
      refine .tier List.mem_cons_self hfits (List.forall_mem_cons.2 ⟨fun _ => .inl rfl, ?_⟩) rfl
      exact fun other hother _ => .inr (hnext other hother)
    · rename_i hexceeded
      cases ih hlater with
      | tier hmem hfits hleast hbase =>
        refine .tier (List.mem_cons_of_mem _ hmem) hfits (List.forall_mem_cons.2 ⟨?_, hleast⟩) hbase
        exact fun hfirst => absurd hfirst hexceeded
      | none hnone hbase => exact .none (List.forall_mem_cons.2 ⟨hexceeded, hnone⟩) hbase

/-- **Every ascending tier is found**: by a file as large as its limit. -/
theorem baseFor_limit (rules : Rules) (h : Ascending tiers) (hmem : tier ∈ tiers) :
    (rules.withTiers tiers).baseFor tier.limit = tier.base := by
  have hfits : tier.limit ≤ tier.limit := Binary64.le_refl (h.isNumber tier hmem)
  cases rules.isTightest_of_increasing tier.limit h.increasing with
  | tier _ hfound hleast hbase =>
    rcases hleast tier hmem hfits with rfl | hlt
    · exact hbase
    · exact absurd hlt (not_lt_of_le hfound)
  | none hnone => exact absurd hfits (hnone tier hmem)

/-! ## Any list of tiers -/

/-- **What the search finds in any list of tiers.** It finds the same among the effective ones;
their limits increase; and it finds the tightest of them. Tiers whose limits increase ascend, but
for a lone limit that is no number; and where they ascend every tier is effective and found by some
size, and the tightest of all that fit is found. -/
theorem baseFor_tightest (rules : Rules) (megabytes : Binary64) :
    (rules.withTiers (effective rules.tiers)).baseFor megabytes = rules.baseFor megabytes ∧
    Increasing (effective rules.tiers) ∧
    IsTightest (effective rules.tiers) rules.largestBase megabytes (rules.baseFor megabytes) ∧
    (Increasing rules.tiers → Ascending rules.tiers ∨ ∃ base, rules.tiers = [⟨nan, base⟩]) ∧
    (Ascending rules.tiers → effective rules.tiers = rules.tiers ∧
      (∀ tier ∈ rules.tiers, rules.baseFor tier.limit = tier.base) ∧
      IsTightest rules.tiers rules.largestBase megabytes (rules.baseFor megabytes)) := by
  have hsame : (rules.withTiers (effective rules.tiers)).baseFor megabytes =
      rules.baseFor megabytes :=
    baseFor_effectiveBehind (List.forall_mem_nil _)
  have hincreasing : Increasing (effective rules.tiers) := increasing_effectiveBehind [] rules.tiers
  have htightest := rules.isTightest_of_increasing megabytes hincreasing
  rw [hsame] at htightest
  refine ⟨hsame, hincreasing, htightest, ascending_of_increasing, ?_⟩
  intro hascending
  refine ⟨effectiveBehind_of_ascending hascending (List.forall_mem_nil _), ?_, ?_⟩
  · intro tier hmem
    exact rules.baseFor_limit hascending hmem
  · exact rules.isTightest_of_increasing megabytes hascending.increasing

/-- Two tiers of four are effective where one limit stands twice and one is no number. The standard
tiers ascend, so a file of a gigabyte finds the tier with this limit. -/
theorem baseFor_tightest_in_disorder :
    let rules : Rules := standard.withTiers [⟨10, 1⟩, ⟨nan, 2⟩, ⟨10, 3⟩, ⟨infinity false, 4⟩]
    effective rules.tiers = [⟨10, 1⟩, ⟨infinity false, 4⟩] ∧
      (rules.withTiers (effective rules.tiers)).baseFor 11 = 4 ∧
    Ascending standard.tiers ∧ standard.baseFor 1024 = 32 := by
  intro rules
  obtain ⟨hsame, -⟩ := rules.baseFor_tightest 11
  obtain ⟨-, -, -, -, hfound⟩ := standard.baseFor_tightest 1024
  have hascending : Ascending standard.tiers := by
    constructor
    · decide +kernel
    · show List.Pairwise _ _
      decide +kernel
  have hmem : (⟨1024, 32⟩ : SizeTier) ∈ standard.tiers := by decide +kernel
  obtain ⟨-, hlimits, -⟩ := hfound hascending
  refine ⟨?_, hsame.trans ?_, hascending, hlimits ⟨1024, 32⟩ hmem⟩
  · decide +kernel
  · decide +kernel

end Rules

end ChunkSizing
