import ChunkSizing.Proofs.Plan.Tiling

/-!
# ChunkSizing.Proofs.Plan.Planned — which files are planned, and how the ranges share their bytes.

The outcome of planning follows from the signed size alone: below zero it is one refusal, beyond a
million chunks the other, and everything between is cut. The ranges of a plan are told apart by the
quotient of an offset (`Plan.exists_holds_iff`): every byte of the file has one range, and nothing
else has any.
-/

namespace ChunkSizing.Plan

variable {size : Int64} {bytes : UInt64}

/-! ## Sizes as words -/

theorem lt_zero_iff : size < 0 ↔ size.toInt < 0 := by
  rw [Int64.lt_iff_toInt_lt, Int64.toInt_zero]

theorem toNat_toUInt64 (h : 0 ≤ size.toInt) : size.toUInt64.toNat = size.toInt.toNat := by
  have hle : 0 ≤ size := Int64.le_iff_toInt_le.2 h
  rw [Int64.toNat_toUInt64_of_le hle, Int64.toNat_toInt]

theorem chunksNeeded_eq (total size : UInt64) :
    chunksNeeded total size = total.toNat ⌈/⌉ max size.toNat 1 := by
  unfold chunksNeeded
  simp only [toNat_positiveSize]
  exact (Nat.ceilDiv_eq_add_pred_div _ _).symm

/-- More chunks are needed than a plan may hold exactly if that many do not reach the end. -/
theorem maxChunks_lt_chunksNeeded_iff (total size : UInt64) :
    maxChunks < chunksNeeded total size ↔ 1000000 * max size.toNat 1 < total.toNat := by
  rw [chunksNeeded_eq, Nat.mul_comm, ← not_le, ← not_le, not_iff_not]
  exact ceilDiv_le_iff_le_mul (by omega)

/-! ## Outcomes -/

theorem ofFile_of_neg (h : size.toInt < 0) : ofFile size bytes = .error (.negativeSize size) := by
  unfold ofFile
  exact if_pos (lt_zero_iff.2 h)

theorem ofFile_of_gt (h : 1000000 * max bytes.toNat 1 < size.toInt) : ofFile size bytes =
    .error (.tooManyChunks size.toInt.toNat (size.toInt.toNat ⌈/⌉ max bytes.toNat 1)) := by
  have hnonneg : 0 ≤ size.toInt := by omega
  have htotal := toNat_toUInt64 hnonneg
  have hlong : maxChunks < chunksNeeded size.toUInt64 bytes := by
    rw [maxChunks_lt_chunksNeeded_iff]
    omega
  unfold ofFile
  rw [if_neg (mt lt_zero_iff.1 (Int.not_lt.2 hnonneg))]
  show (if maxChunks < chunksNeeded size.toUInt64 bytes then _ else _) = _
  rw [if_pos hlong, chunksNeeded_eq, htotal]

theorem ofFile_of_le (hnonneg : 0 ≤ size.toInt)
    (hle : size.toInt ≤ 1000000 * max bytes.toNat 1) :
    ofFile size bytes = .ok (cut size.toUInt64 bytes) := by
  have htotal := toNat_toUInt64 hnonneg
  have hshort : ¬ maxChunks < chunksNeeded size.toUInt64 bytes := by
    rw [maxChunks_lt_chunksNeeded_iff]
    omega
  unfold ofFile
  rw [if_neg (mt lt_zero_iff.1 (Int.not_lt.2 hnonneg))]
  exact if_neg hshort

/-- **Which files are planned**, and that the plan is the cut of the file. -/
theorem ofFile_eq_ok_iff {plan : Plan} : ofFile size bytes = .ok plan ↔
    (0 ≤ size.toInt ∧ size.toInt ≤ 1000000 * max bytes.toNat 1) ∧
      cut size.toUInt64 bytes = plan := by
  rcases Int.lt_or_le size.toInt 0 with hneg | hnonneg
  · rw [ofFile_of_neg hneg]
    refine iff_of_false nofun ?_
    rintro ⟨⟨hnonneg, -⟩, -⟩
    exact absurd hneg (Int.not_lt.2 hnonneg)
  rcases Int.lt_or_le (1000000 * max bytes.toNat 1) size.toInt with hgt | hle
  · rw [ofFile_of_gt hgt]
    refine iff_of_false nofun ?_
    rintro ⟨⟨-, hle⟩, -⟩
    exact absurd hgt (Int.not_lt.2 hle)
  · rw [ofFile_of_le hnonneg hle, Except.ok.injEq]
    exact (and_iff_right ⟨hnonneg, hle⟩).symm

/-! ## Bytes and ranges -/

/-- **A byte and its range.** The range of index `i` of a plan holds the bytes of the file whose
offset has the quotient `i`, and no others. -/
theorem exists_holds_iff (total size : UInt64) (i offset : Nat) :
    (∃ chunk, (cut total size)[i]? = some chunk ∧ chunk.Holds offset) ↔
      offset < total.toNat ∧ i = offset / max size.toNat 1 := by
  obtain ⟨hlength, hranges⟩ := cut_spec total size
  have hsize : 0 < max size.toNat 1 := by omega
  constructor
  · rintro ⟨chunk, hget, hholds⟩
    obtain ⟨hoffset, hquotient⟩ := (holds_iff (hranges i chunk hget) hsize offset).1 hholds
    exact ⟨hoffset, hquotient.symm⟩
  · rintro ⟨hoffset, rfl⟩
    have hindex : offset / max size.toNat 1 < (cut total size).length := by
      rw [hlength]
      exact div_lt_ceilDiv hsize hoffset
    have hget := List.getElem?_eq_getElem hindex
    exact ⟨_, hget, (holds_iff (hranges _ _ hget) hsize offset).2 ⟨hoffset, rfl⟩⟩

/-- Every range but the last is full. -/
theorem bytes_of_succ_lt {total size : UInt64} {i : Nat} {chunk : Chunk}
    (hget : (cut total size)[i]? = some chunk) (hnext : i + 1 < (cut total size).length) :
    chunk.bytes = max size.toNat 1 := by
  obtain ⟨hlength, hranges⟩ := cut_spec total size
  have hsize : 0 < max size.toNat 1 := by omega
  have hstart := mul_lt_of_lt_ceilDiv hsize (hlength ▸ hnext)
  rw [Nat.add_mul, Nat.one_mul] at hstart
  rw [bytes_eq (hranges i chunk hget) (by omega)]
  omega

end ChunkSizing.Plan
