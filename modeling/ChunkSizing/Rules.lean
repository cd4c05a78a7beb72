import ChunkSizing.Transfer.Basic

/-!
# ChunkSizing.Rules — estimating a chunk size.

An estimator gives a chunk size in megabytes for a size and two optional measurements. Rules are one
kind of estimator: a base that depends on the size of the file, scaled for the bandwidth and then
for the latency, and kept between the least and the greatest chunk size.
-/

namespace ChunkSizing

/-- Anything that estimates: size in bytes, bandwidth and latency give megabytes. -/
structure Estimator where
  estimate : Int64 → Option Binary64 → Option Binary64 → Binary64

namespace Estimator

/-- The advice of an estimator. The content type takes no part. -/
def advise (estimator : Estimator) (transfer : Transfer) : Advice :=
  ⟨estimator.estimate transfer.size transfer.bandwidth transfer.latency⟩

/-- The estimator that always gives the same value. -/
def constant (megabytes : Binary64) : Estimator := ⟨fun _ _ _ => megabytes⟩

end Estimator

/-! ## The range of chunk sizes -/

/-- The least chunk size that rules give, in megabytes. -/
def leastChunkSize : Binary64 := 4

/-- The greatest chunk size that rules give, in megabytes. -/
def greatestChunkSize : Binary64 := 256

/-- **Into the range.** What is not a number becomes the greatest chunk size. -/
def clampChunkSize (megabytes : Binary64) : Binary64 :=
  (megabytes.least greatestChunkSize).greatest leastChunkSize

/-! ## Rules -/

/-- Files of at most `limit` megabytes get the base `base`. -/
structure SizeTier where
  limit : Binary64
  base : Binary64
deriving DecidableEq

/-- How a measurement scales a chunk size: one factor strictly above a limit, another strictly below
a second limit. -/
structure Adjustment where
  above : Binary64
  aboveFactor : Binary64
  below : Binary64
  belowFactor : Binary64
deriving DecidableEq

/-- **The factor of a measurement.** Between the limits, and for an absent measurement, it is one;
the upper limit is looked at first. -/
def Adjustment.factor (adjustment : Adjustment) : Option Binary64 → Binary64
  | none => 1
  | some value =>
    if adjustment.above < value then adjustment.aboveFactor
    else if value < adjustment.below then adjustment.belowFactor
    else 1

/-- The rules of an estimator. -/
structure Rules where
  /-- Searched in this order; the first tier that the file fits into wins. -/
  tiers : List SizeTier
  /-- The base of a file that fits into no tier. -/
  largestBase : Binary64
  bandwidth : Adjustment
  latency : Adjustment
deriving DecidableEq

namespace Rules

/-- The decimal `digits / 10 ^ places`, rounded. -/
def decimal (digits : Nat) (places : Nat) : Binary64 := .ofDecimal false ⟨digits, -places⟩

/-- **The standard rules.** Fast links can keep bigger chunks in flight, and long round trips favour
fewer of them. -/
def standard : Rules where
  tiers := [⟨100, 8⟩, ⟨1024, 32⟩, ⟨10240, 64⟩]
  largestBase := 128
  bandwidth := ⟨200, decimal 15 1, 20, decimal 75 2⟩
  latency := ⟨100, decimal 125 2, 20, decimal 9 1⟩

/-- The base for a file of this many megabytes. -/
def baseFor (rules : Rules) (megabytes : Binary64) : Binary64 :=
  match rules.tiers.find? fun tier => megabytes ≤ tier.limit with
  | some tier => tier.base
  | none => rules.largestBase

/-- The size of a file in megabytes. -/
def megabytesOf (size : Int64) : Binary64 := Binary64.ofInt size.toInt / bytesPerMegabyte

/-- The estimate before it is brought into the range. -/
def product (rules : Rules) (size : Int64) (bandwidth latency : Option Binary64) : Binary64 :=
  rules.baseFor (megabytesOf size) * rules.bandwidth.factor bandwidth *
    rules.latency.factor latency

/-- **The estimator of a set of rules.** -/
def estimator (rules : Rules) : Estimator :=
  ⟨fun size bandwidth latency => clampChunkSize (rules.product size bandwidth latency)⟩

end Rules

end ChunkSizing
