import ChunkSizing.Decimal.Literal
import ChunkSizing.Json.Document

/-!
# ChunkSizing.Plan — the byte ranges of a transfer.

A plan cuts a file into consecutive ranges of one size, the last one possibly shorter. Offsets are
words of 64 bits; the end of a range is computed with an addition that stops at the largest word, so
no offset wraps.
-/

namespace ChunkSizing

/-- One range of a plan; `last` is the offset of its last byte. -/
structure Chunk where
  index : Nat
  start : UInt64
  last : UInt64
deriving DecidableEq

/-- A file in consecutive ranges. -/
abbrev Plan := List Chunk

/-- The sum of two words, or the largest word if it is too large. -/
def saturatingAdd (a b : UInt64) : UInt64 := if a + b < a then 0xffffffffffffffff else a + b

theorem toNat_saturatingAdd (a b : UInt64) :
    (saturatingAdd a b).toNat = min (a.toNat + b.toNat) (UInt64.size - 1) := by
  have ha := a.toNat_lt
  have hb := b.toNat_lt
  have hsum := UInt64.toNat_add a b
  have hsize : UInt64.size = 18446744073709551616 := rfl
  unfold saturatingAdd
  split
  · rename_i h
    have : (0xffffffffffffffff : UInt64).toNat = UInt64.size - 1 := rfl
    have := UInt64.lt_iff_toNat_lt.1 h
    omega
  · rename_i h
    have := mt UInt64.lt_iff_toNat_lt.2 h
    omega

namespace Plan

/-! ## Cutting a file -/

/-- The offset behind the range that begins at `start`. -/
def stop (total size start : UInt64) : UInt64 :=
  let next := saturatingAdd start size
  if next ≤ total then next else total

theorem start_lt_stop {total size start : UInt64} (hsize : 0 < size) (hstart : start < total) :
    start < stop total size start := by
  have hsize := UInt64.lt_iff_toNat_lt.1 hsize
  have hstart' := UInt64.lt_iff_toNat_lt.1 hstart
  have htotal := total.toNat_lt
  have hnext := toNat_saturatingAdd start size
  have : UInt64.size = 18446744073709551616 := rfl
  have : (0 : UInt64).toNat = 0 := rfl
  simp only [stop]
  split
  · exact UInt64.lt_iff_toNat_lt.2 (by omega)
  · exact hstart

theorem stop_le_total (total size start : UInt64) : stop total size start ≤ total := by
  simp only [stop]
  split
  · assumption
  · exact UInt64.le_refl total

/-- Every range brings the offset closer to the end of the file. -/
theorem left_after_stop {total size start : UInt64} (hsize : 0 < size) (hstart : start < total) :
    total.toNat - (stop total size start).toNat < total.toNat - start.toNat := by
  have := UInt64.lt_iff_toNat_lt.1 hstart
  have := UInt64.lt_iff_toNat_lt.1 (start_lt_stop hsize hstart)
  have := UInt64.le_iff_toNat_le.1 (stop_le_total total size start)
  omega

/-- Adds the ranges from `start` on to those before it. -/
def cutFrom (total size : UInt64) (hsize : 0 < size) (index : Nat) (start : UInt64)
    (before : Array Chunk) : Array Chunk :=
  if hstart : start < total then
    let next := stop total size start
    cutFrom total size hsize (index + 1) next (before.push ⟨index, start, next - 1⟩)
  else before
termination_by total.toNat - start.toNat
decreasing_by exact left_after_stop hsize hstart

/-- A chunk size that is not zero. -/
def positiveSize (size : UInt64) : UInt64 := if size = 0 then 1 else size

theorem positiveSize_pos (size : UInt64) : 0 < positiveSize size := by
  unfold positiveSize
  split
  · decide
  · rename_i h
    exact UInt64.pos_iff_ne_zero.2 h

/-- **The plan of a file**: ranges of `size` bytes, or of one byte if `size` is zero. -/
def cut (total size : UInt64) : Plan :=
  (cutFrom total (positiveSize size) (positiveSize_pos size) 0 0 #[]).toList

/-! ## Admission -/

/-- How many ranges a plan may hold. -/
def maxChunks : Nat := 1000000

/-- Why a file is not planned. -/
inductive Fault where
  | negativeSize (size : Int64)
  | tooManyChunks (total : Nat) (chunks : Nat)
deriving DecidableEq

/-- The wording of each fault. -/
def Fault.message : Fault → String
  | negativeSize size => "cannot plan a file of " ++ size.toInt.repr ++ " bytes"
  | tooManyChunks total chunks =>
    "plan for " ++ total.repr ++ " bytes needs " ++ chunks.repr ++ " chunks, limit is " ++
      maxChunks.repr

/-- What lies under a fault. A negative size is below the range of offsets. -/
def Fault.causes : Fault → List String
  | negativeSize _ => [IntegerFault.tooSmall.message]
  | tooManyChunks .. => []

/-- The number of ranges that a file needs. -/
def chunksNeeded (total size : UInt64) : Nat :=
  let size := (positiveSize size).toNat
  (total.toNat + size - 1) / size

/-- **Planning a file.** Negative sizes and plans that would be too long are refused. -/
def ofFile (size : Int64) (chunkSize : UInt64) : Except Fault Plan :=
  if size < 0 then .error (.negativeSize size)
  else
    let total := size.toUInt64
    let chunks := chunksNeeded total chunkSize
    if maxChunks < chunks then .error (.tooManyChunks total.toNat chunks)
    else .ok (cut total chunkSize)

/-! ## In JSON -/

/-- A range as a record. -/
def row (chunk : Chunk) : Json.Members :=
  [("index", .integer chunk.index), ("start", .integer chunk.start.toNat),
    ("end_inclusive", .integer chunk.last.toNat)]

/-- A plan as a document. -/
def toDocument (plan : Plan) : Json.Document := .table (plan.map row)

end Plan

end ChunkSizing
