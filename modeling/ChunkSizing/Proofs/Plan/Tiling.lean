import ChunkSizing.Plan
import Mathlib.Algebra.Order.Floor.Div
import Mathlib.Data.List.Range

/-!
# ChunkSizing.Proofs.Plan.Tiling — a plan tiles its file.

`Plan.cut` walks over the file with words of 64 bits; what it should do is said in natural numbers:
range `i` of a file of `total` bytes begins at `i * size` and ends before the lesser of
`(i + 1) * size` and `total`.
`Tiles` collects that closed form and what follows from it for the bytes of the file, and
`cut_tiles_file` proves it for every word `total` and every word `size`, zero included.

The loop is carried by one invariant: before the range of index `i` is made, `start` is
`min (i * size) total`. The minimum matters only once, after the last range, where the saturating
addition and the cut at `total` have both come to rest at `total`.
-/

namespace ChunkSizing

namespace Chunk

/-- The byte at this offset lies in the range. -/
def Holds (chunk : Chunk) (offset : Nat) : Prop :=
  chunk.start.toNat ≤ offset ∧ offset ≤ chunk.last.toNat

/-- How many bytes lie in the range. -/
def bytes (chunk : Chunk) : Nat := chunk.last.toNat + 1 - chunk.start.toNat

/-- The range of index `i` in a file that is cut every `size` bytes, with its offsets as natural
numbers: nothing in it has wrapped around. -/
structure IsRange (total size i : Nat) (chunk : Chunk) : Prop where
  index_eq : chunk.index = i
  start_eq : chunk.start.toNat = i * size
  /-- Stated with the offset behind the range, so that the offset of the last byte is no truncated
  difference. -/
  stop_eq : chunk.last.toNat + 1 = min ((i + 1) * size) total

end Chunk

namespace Plan

/-- **A plan tiles a file** of `total` bytes in steps of `size` bytes. -/
structure Tiles (total size : Nat) (plan : Plan) : Prop where
  length_eq : plan.length = total ⌈/⌉ size
  /-- Indices are words too; there is always one left. -/
  length_lt : plan.length < UInt64.size
  isRange : ∀ (i : Nat) (chunk : Chunk), plan[i]? = some chunk → chunk.IsRange total size i
  /-- No byte lies in two ranges, and none is left out. -/
  existsUnique : ∀ offset < total, ∃! chunk, chunk ∈ plan ∧ chunk.Holds offset
  /-- The range of a byte has the index `offset / size`, and behind the end there is none. -/
  lt_and_index_eq : ∀ chunk ∈ plan, ∀ offset,
    chunk.Holds offset → offset < total ∧ chunk.index = offset / size
  full : ∀ (i : Nat) (chunk : Chunk),
    plan[i]? = some chunk → i + 1 < plan.length → chunk.bytes = size
  last_bytes : ∀ chunk, plan.getLast? = some chunk → 1 ≤ chunk.bytes ∧ chunk.bytes ≤ size

/-! ## One range -/

theorem toNat_positiveSize (size : UInt64) : (positiveSize size).toNat = max size.toNat 1 := by
  unfold positiveSize
  split
  · rename_i h
    rw [h]
    rfl
  · rename_i h
    have hpos := UInt64.lt_iff_toNat_lt.1 (UInt64.pos_iff_ne_zero.2 h)
    rw [UInt64.toNat_zero] at hpos
    omega

/-- The saturation is never seen: a sum that does not fit is beyond the end of the file. -/
theorem toNat_stop (total size start : UInt64) :
    (stop total size start).toNat = min (start.toNat + size.toNat) total.toNat := by
  have htotal := total.toNat_lt
  have hnext := toNat_saturatingAdd start size
  have hsize : UInt64.size = 18446744073709551616 := rfl
  simp only [stop]
  split
  · rename_i h
    have := UInt64.le_iff_toNat_le.1 h
    omega
  · rename_i h
    have := mt UInt64.le_iff_toNat_le.2 h
    omega

/-- One turn of the loop makes the range of its index. -/
theorem isRange_of_start {total size start : UInt64} {i : Nat} (hsize : 0 < size)
    (hstart : start.toNat = i * size.toNat) (hlt : start < total) :
    Chunk.IsRange total.toNat size.toNat i ⟨i, start, stop total size start - 1⟩ := by
  have hstop := UInt64.lt_iff_toNat_lt.1 (start_lt_stop hsize hlt)
  have hone : (1 : UInt64).toNat = 1 := rfl
  have hle : (1 : UInt64) ≤ stop total size start := UInt64.le_iff_toNat_le.2 (by omega)
  refine ⟨rfl, hstart, ?_⟩
  show (stop total size start - 1).toNat + 1 = _
  rw [UInt64.toNat_sub_of_le _ _ hle, Nat.add_mul, ← hstart, Nat.one_mul, ← toNat_stop]
  omega

/-! ## The loop -/

/-- **The loop in natural numbers.** From a `start` that agrees with the invariant on, it adds the
ranges of the remaining indices and no others. -/
theorem cutFrom_spec (total size : UInt64) (hsize : 0 < size) (i : Nat) (start : UInt64)
    (before : Array Chunk) (hstart : start.toNat = min (i * size.toNat) total.toNat)
    (hi : i ≤ total.toNat ⌈/⌉ size.toNat) (hbefore : before.size = i)
    (hranges : ∀ (j : Nat) (chunk : Chunk), before[j]? = some chunk →
      chunk.IsRange total.toNat size.toNat j) :
    (cutFrom total size hsize i start before).size = total.toNat ⌈/⌉ size.toNat ∧
    ∀ (j : Nat) (chunk : Chunk), (cutFrom total size hsize i start before)[j]? = some chunk →
      chunk.IsRange total.toNat size.toNat j := by
  have hpos : 0 < size.toNat := UInt64.lt_iff_toNat_lt.1 hsize
  fun_induction cutFrom total size hsize i start before with
  | case1 i start before hlt next ih =>
    have hlt' := UInt64.lt_iff_toNat_lt.1 hlt
    have hstart' : start.toNat = i * size.toNat := by omega
    refine ih ?_ ?_ ?_ ?_
    · show (stop total size start).toNat = _
      rw [toNat_stop, hstart', Nat.add_mul, Nat.one_mul]
    · -- another index is left, because `i * size` has not reached the end
      by_contra hlast
      have := (ceilDiv_le_iff_le_mul hpos).1 (show total.toNat ⌈/⌉ size.toNat ≤ i by omega)
      rw [Nat.mul_comm] at this
      omega
    · rw [Array.size_push, hbefore]
    · intro j chunk hj
      rw [Array.getElem?_push, hbefore] at hj
      split at hj
      · rename_i hji
        obtain rfl := Option.some.inj hj
        rw [hji]
        exact isRange_of_start hsize hstart' hlt
      · exact hranges j chunk hj
  | case2 i start before hge =>
    have hge' := mt UInt64.lt_iff_toNat_lt.2 hge
    refine ⟨?_, hranges⟩
    have hle : total.toNat ⌈/⌉ size.toNat ≤ i := by
      apply (ceilDiv_le_iff_le_mul hpos).2
      rw [Nat.mul_comm]
      omega
    omega

/-- **The plan in natural numbers**: as many ranges as the quotient, each where its index says. -/
theorem cut_spec (total size : UInt64) :
    (cut total size).length = total.toNat ⌈/⌉ max size.toNat 1 ∧
    ∀ (i : Nat) (chunk : Chunk), (cut total size)[i]? = some chunk →
      chunk.IsRange total.toNat (max size.toNat 1) i := by
  have hloop := cutFrom_spec total (positiveSize size) (positiveSize_pos size) 0 0 #[]
    (by simp) (Nat.zero_le _) rfl (by simp)
  rw [toNat_positiveSize] at hloop
  unfold cut
  rw [Array.length_toList]
  refine ⟨hloop.1, ?_⟩
  intro i chunk hi
  rw [Array.getElem?_toList] at hi
  exact hloop.2 i chunk hi

/-! ## The bytes of the file -/

section Bytes

variable {total size i : Nat} {chunk : Chunk}

/-- A range of a file begins before its end. -/
theorem mul_lt_of_lt_ceilDiv (hsize : 0 < size) (hi : i < total ⌈/⌉ size) : i * size < total := by
  by_contra h
  have := (ceilDiv_le_iff_le_mul hsize).2 (show total ≤ size * i by rw [Nat.mul_comm]; omega)
  omega

/-- Every byte of a file has a range. -/
theorem div_lt_ceilDiv {offset : Nat} (hsize : 0 < size) (hoffset : offset < total) :
    offset / size < total ⌈/⌉ size := by
  by_contra h
  have hle := (ceilDiv_le_iff_le_mul hsize).1 (Nat.not_lt.1 h)
  have := Nat.mul_div_le offset size
  omega

theorem holds_iff (hrange : chunk.IsRange total size i) (hsize : 0 < size) (offset : Nat) :
    chunk.Holds offset ↔ offset < total ∧ offset / size = i := by
  have hstop := hrange.stop_eq
  unfold Chunk.Holds
  rw [hrange.start_eq, Nat.div_eq_iff hsize]
  rw [Nat.add_mul, Nat.one_mul] at hstop
  omega

/-- Every range but the last is full, and no range is empty. -/
theorem bytes_eq (hrange : chunk.IsRange total size i) (hi : i * size < total) :
    chunk.bytes = min size (total - i * size) := by
  have hstop := hrange.stop_eq
  unfold Chunk.bytes
  rw [hrange.start_eq, hstop, Nat.add_mul, Nat.one_mul]
  omega

end Bytes

/-! ## The tiling -/

/-- **Exact tiling.** For all words `total` and `size`, zero and those near the largest word among
them, the plan has `⌈total / size⌉` ranges, each of them where its index says, every byte of the
file lies in exactly one of them, and all but the last are full. -/
theorem cut_tiles_file (total size : UInt64) :
    Tiles total.toNat (max size.toNat 1) (cut total size) := by
  obtain ⟨hlength, hranges⟩ := cut_spec total size
  have hsize : 0 < max size.toNat 1 := by omega
  have hstarts : ∀ i < (cut total size).length, i * max size.toNat 1 < total.toNat := by
    intro i hi
    exact mul_lt_of_lt_ceilDiv hsize (hlength ▸ hi)
  have hbytes : ∀ (i : Nat) (chunk : Chunk), (cut total size)[i]? = some chunk →
      chunk.bytes = min (max size.toNat 1) (total.toNat - i * max size.toNat 1) := by
    intro i chunk hi
    obtain ⟨hlt, -⟩ := List.getElem?_eq_some_iff.1 hi
    exact bytes_eq (hranges i chunk hi) (hstarts i hlt)
  refine ⟨hlength, ?_, hranges, ?_, ?_, ?_, ?_⟩
  · -- a range holds a byte at least, so there are no more ranges than bytes
    have hle : total.toNat ⌈/⌉ max size.toNat 1 ≤ total.toNat :=
      (ceilDiv_le_iff_le_mul hsize).2 (Nat.le_mul_of_pos_left _ hsize)
    rw [hlength]
    exact Nat.lt_of_le_of_lt hle total.toNat_lt
  · intro offset hoffset
    have hindex : offset / max size.toNat 1 < (cut total size).length := by
      rw [hlength]
      exact div_lt_ceilDiv hsize hoffset
    have hget := List.getElem?_eq_getElem hindex
    refine ⟨(cut total size)[offset / max size.toNat 1], ⟨List.getElem_mem hindex, ?_⟩, ?_⟩
    · exact (holds_iff (hranges _ _ hget) hsize offset).2 ⟨hoffset, rfl⟩
    · rintro other ⟨hmem, hholds⟩
      obtain ⟨j, hj⟩ := List.getElem?_of_mem hmem
      obtain ⟨-, rfl⟩ := (holds_iff (hranges j other hj) hsize offset).1 hholds
      exact Option.some.inj (hj.symm.trans hget)
  · intro chunk hmem offset hholds
    obtain ⟨j, hj⟩ := List.getElem?_of_mem hmem
    obtain ⟨hlt, heq⟩ := (holds_iff (hranges j chunk hj) hsize offset).1 hholds
    exact ⟨hlt, (hranges j chunk hj).index_eq.trans heq.symm⟩
  · intro i chunk hi hnext
    have hstart := hstarts (i + 1) hnext
    rw [Nat.add_mul, Nat.one_mul] at hstart
    rw [hbytes i chunk hi]
    omega
  · intro chunk hlast
    rw [List.getLast?_eq_getElem?] at hlast
    obtain ⟨hlt, -⟩ := List.getElem?_eq_some_iff.1 hlast
    have hstart := hstarts _ hlt
    rw [hbytes _ chunk hlast]
    omega

end Plan

end ChunkSizing
