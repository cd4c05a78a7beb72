import ChunkSizing.Proofs.Plan.Planned

/-!
# ChunkSizing.Proofs.Plan.Admission — the limit is put on the plan that would be made.

A file is admitted by a quotient, before any range is cut; the ranges are cut by a loop that knows
of no limit. The two counts are one number (`chunksNeeded_eq_length`), so a plan is refused exactly
if the loop would have made it too long, and the refusal names the length it would have had.
-/

namespace ChunkSizing.Plan

variable {size : Int64} {bytes : UInt64}

/-! ## One chunk size for both counts -/

theorem positiveSize_of_pos (h : 0 < bytes) : positiveSize bytes = bytes := by
  unfold positiveSize
  exact if_neg (UInt64.pos_iff_ne_zero.1 h)

/-- Cutting makes the chunk size positive by itself, so it may have been made so before. -/
theorem cut_positiveSize (total bytes : UInt64) :
    cut total (positiveSize bytes) = cut total bytes := by
  unfold cut
  simp only [positiveSize_of_pos (positiveSize_pos bytes)]

/-! ## One count -/

/-- **The quotient counts the ranges** that the loop makes. -/
theorem chunksNeeded_eq_length (total bytes : UInt64) :
    chunksNeeded total bytes = (cut total bytes).length := by
  rw [chunksNeeded_eq, (cut_spec total bytes).1]

/-- How many ranges there are in a file of signed size. -/
theorem length_cut_toUInt64 (h : 0 ≤ size.toInt) :
    (cut size.toUInt64 bytes).length = size.toInt.toNat ⌈/⌉ max bytes.toNat 1 := by
  rw [(cut_spec size.toUInt64 bytes).1, toNat_toUInt64 h]

/-- More chunks than are allowed are needed exactly if those that are allowed do not reach the end.
-/
theorem lt_ceilDiv_iff (h : 0 ≤ size.toInt) :
    1000000 < size.toInt.toNat ⌈/⌉ max bytes.toNat 1 ↔
      1000000 * max bytes.toNat 1 < size.toInt := by
  have hlimit := maxChunks_lt_chunksNeeded_iff size.toUInt64 bytes
  rw [chunksNeeded_eq_length, length_cut_toUInt64 h, toNat_toUInt64 h] at hlimit
  refine hlimit.trans ?_
  omega

/-! ## Outcomes -/

theorem ofFile_of_short (hnonneg : 0 ≤ size.toInt)
    (hshort : size.toInt.toNat ⌈/⌉ max bytes.toNat 1 ≤ 1000000) :
    ofFile size bytes = .ok (cut size.toUInt64 bytes) := by
  apply ofFile_of_le hnonneg
  rw [← Int.not_lt, ← lt_ceilDiv_iff hnonneg]
  exact Nat.not_lt.2 hshort

/-- **The three outcomes**, told apart by the sign of the size and the number of ranges. -/
theorem ofFile_cases (size : Int64) (bytes : UInt64) :
    let chunks := size.toInt.toNat ⌈/⌉ max bytes.toNat 1
    (size.toInt < 0 ∧ ofFile size bytes = .error (.negativeSize size)) ∨
    (0 ≤ size.toInt ∧ 1000000 < chunks ∧
      ofFile size bytes = .error (.tooManyChunks size.toInt.toNat chunks)) ∨
    (0 ≤ size.toInt ∧ chunks ≤ 1000000 ∧ ofFile size bytes = .ok (cut size.toUInt64 bytes)) := by
  intro chunks
  rcases Int.lt_or_le size.toInt 0 with hneg | hnonneg
  · exact .inl ⟨hneg, ofFile_of_neg hneg⟩
  right
  rcases Nat.lt_or_ge 1000000 chunks with hlong | hshort
  · exact .inl ⟨hnonneg, hlong, ofFile_of_gt ((lt_ceilDiv_iff hnonneg).1 hlong)⟩
  · exact .inr ⟨hnonneg, hshort, ofFile_of_short hnonneg hshort⟩

theorem Fault.message_tooManyChunks (total chunks : Nat) :
    (tooManyChunks total chunks).message = "plan for " ++ total.repr ++ " bytes needs " ++
      chunks.repr ++ " chunks, limit is 1000000" := by
  have hlimit : " chunks, limit is " ++ maxChunks.repr = " chunks, limit is 1000000" := by decide
  rw [← hlimit, ← String.append_assoc]
  rfl

/-- The wording of the refusal of a file. -/
theorem message_of_ofFile {fault : Fault} (h : ofFile size bytes = .error fault) :
    fault.message =
      if size.toInt < 0 then "cannot plan a file of " ++ size.toInt.repr ++ " bytes"
      else "plan for " ++ size.toInt.toNat.repr ++ " bytes needs " ++
        (cut size.toUInt64 bytes).length.repr ++ " chunks, limit is 1000000" := by
  obtain ⟨hneg, hfile⟩ | ⟨hnonneg, -, hfile⟩ | ⟨-, -, hfile⟩ := ofFile_cases size bytes
  · obtain rfl := Except.error.inj (hfile.symm.trans h)
    rw [if_pos hneg]
    rfl
  · obtain rfl := Except.error.inj (hfile.symm.trans h)
    rw [if_neg (Int.not_lt.2 hnonneg), Fault.message_tooManyChunks, length_cut_toUInt64 hnonneg]
  · cases hfile.symm.trans h

theorem ofFile_eq_negativeSize_iff {named : Int64} :
    ofFile size bytes = .error (.negativeSize named) ↔ size.toInt < 0 ∧ named = size := by
  obtain ⟨hneg, hfile⟩ | ⟨hnonneg, -, hfile⟩ | ⟨hnonneg, -, hfile⟩ := ofFile_cases size bytes
  · simp [hfile, hneg, eq_comm]
  · simp [hfile, Int.not_lt.2 hnonneg]
  · simp [hfile, Int.not_lt.2 hnonneg]

theorem ofFile_eq_tooManyChunks_iff {total chunks : Nat} :
    ofFile size bytes = .error (.tooManyChunks total chunks) ↔
      (0 ≤ size.toInt ∧ 1000000 < size.toInt.toNat ⌈/⌉ max bytes.toNat 1) ∧
        total = size.toInt.toNat ∧ chunks = size.toInt.toNat ⌈/⌉ max bytes.toNat 1 := by
  obtain ⟨hneg, hfile⟩ | ⟨hnonneg, hlong, hfile⟩ | ⟨-, hshort, hfile⟩ := ofFile_cases size bytes
  · simp only [hfile, Except.error.injEq, reduceCtorEq, Int.not_le.2 hneg, false_and]
  · rw [hfile, and_iff_right ⟨hnonneg, hlong⟩, Except.error.injEq, Fault.tooManyChunks.injEq,
      eq_comm, @eq_comm _ _ chunks]
  · simp only [hfile, reduceCtorEq, Nat.not_lt.2 hshort, and_false, false_and]

theorem ofFile_eq_ok_iff_chunks {plan : Plan} :
    ofFile size bytes = .ok plan ↔
      (0 ≤ size.toInt ∧ size.toInt.toNat ⌈/⌉ max bytes.toNat 1 ≤ 1000000) ∧
        plan = cut size.toUInt64 bytes := by
  obtain ⟨hneg, hfile⟩ | ⟨-, hlong, hfile⟩ | ⟨hnonneg, hshort, hfile⟩ := ofFile_cases size bytes
  · simp only [hfile, reduceCtorEq, Int.not_le.2 hneg, false_and]
  · simp only [hfile, reduceCtorEq, Nat.not_le.2 hlong, and_false, false_and]
  · rw [hfile, and_iff_right ⟨hnonneg, hshort⟩, Except.ok.injEq, eq_comm]

/-- **Which files are planned.** A negative size is refused as one, and a size that is not negative
is refused exactly if its plan would have more than a million ranges, with their number. Every other
file is cut. The number that decides, computed before the loop, is the length of the list that the
loop makes, whether the chunk size is zero or not. -/
theorem ofFile_decided (size : Int64) (bytes : UInt64) :
    let step := max bytes.toNat 1
    let plan := cut size.toUInt64 (positiveSize bytes)
    (∀ named, ofFile size bytes = .error (.negativeSize named) ↔ size.toInt < 0 ∧ named = size) ∧
    (∀ total chunks, ofFile size bytes = .error (.tooManyChunks total chunks) ↔
      (0 ≤ size.toInt ∧ 1000000 < size.toInt.toNat ⌈/⌉ step) ∧
        total = size.toInt.toNat ∧ chunks = size.toInt.toNat ⌈/⌉ step) ∧
    (∀ found, ofFile size bytes = .ok found ↔
      (0 ≤ size.toInt ∧ size.toInt.toNat ⌈/⌉ step ≤ 1000000) ∧ found = plan) ∧
    (∀ fault, ofFile size bytes = .error fault → fault.message =
      if size.toInt < 0 then "cannot plan a file of " ++ size.toInt.repr ++ " bytes"
      else "plan for " ++ size.toInt.toNat.repr ++ " bytes needs " ++ plan.length.repr ++
        " chunks, limit is 1000000") ∧
    (positiveSize bytes).toNat = step ∧
    (0 ≤ size.toInt → chunksNeeded size.toUInt64 bytes = plan.length ∧
      plan.length = size.toInt.toNat ⌈/⌉ step) := by
  intro step plan
  have hplan : plan = cut size.toUInt64 bytes := cut_positiveSize _ _
  rw [hplan]
  refine ⟨?_, ?_, ?_, ?_, toNat_positiveSize bytes, ?_⟩
  · intro named
    exact ofFile_eq_negativeSize_iff
  · intro total chunks
    exact ofFile_eq_tooManyChunks_iff
  · intro found
    exact ofFile_eq_ok_iff_chunks
  · intro fault h
    exact message_of_ofFile h
  · intro hnonneg
    exact ⟨chunksNeeded_eq_length _ _, length_cut_toUInt64 hnonneg⟩

/-- A chunk size of zero counts as one byte, so a million bytes are planned and one more is not. -/
theorem ofFile_decided_at_zero :
    (ofFile 1000000 0 = .ok (cut 1000000 1) ∧ (cut 1000000 1).length = 1000000) ∧
      ofFile 1000001 0 = .error (.tooManyChunks 1000001 1000001) := by
  obtain ⟨-, -, hplanned, -, -, hcount⟩ := ofFile_decided 1000000 0
  obtain ⟨-, hlong, -⟩ := ofFile_decided 1000001 0
  refine ⟨⟨(hplanned _).2 ⟨⟨by decide, by decide⟩, rfl⟩, ?_⟩, ?_⟩
  · exact (hcount (by decide)).2
  · exact (hlong _ _).2 ⟨⟨by decide, by decide⟩, by decide, by decide⟩

end ChunkSizing.Plan
