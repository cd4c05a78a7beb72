import ChunkSizing.Program
import ChunkSizing.Proofs.Plan.Planned
import ChunkSizing.Proofs.Rules.Standard

/-!
# ChunkSizing.Proofs.Program.Planning — from advice to a plan.

The advised bytes are never zero, so a file is planned exactly if a million chunks of them reach its
end. The bounds of the advised bytes turn into sizes that are always planned and sizes that never
are, for all rules and, more narrowly, for the standard ones; there the command that plans ends
accordingly.
-/

namespace ChunkSizing

variable (rules : Rules) (transfer : Transfer)

/-! ## Plans of advice -/

namespace Rules

theorem max_bytesFor :
    max (rules.bytesFor transfer).toNat 1 = (rules.bytesFor transfer).toNat := by
  obtain ⟨hlow, -⟩ := rules.bytesFor_mem_range transfer
  exact Nat.max_eq_left (by omega)

/-- **Which transfers are planned** under rules. -/
theorem exists_plan_iff :
    (∃ plan, Plan.ofFile transfer.size (rules.bytesFor transfer) = .ok plan) ↔
      0 ≤ transfer.size.toInt ∧
        transfer.size.toInt ≤ 1000000 * (rules.bytesFor transfer).toNat := by
  simp only [Plan.ofFile_eq_ok_iff, max_bytesFor]
  constructor
  · rintro ⟨_, hsize, -⟩
    exact hsize
  · intro hsize
    exact ⟨_, hsize, rfl⟩

/-- What is not planned is refused. -/
theorem exists_fault_iff :
    (∃ fault, Plan.ofFile transfer.size (rules.bytesFor transfer) = .error fault) ↔
      transfer.size.toInt < 0 ∨
        1000000 * (rules.bytesFor transfer).toNat < transfer.size.toInt := by
  have hplanned := exists_plan_iff rules transfer
  cases houtcome : Plan.ofFile transfer.size (rules.bytesFor transfer) with
  | ok plan =>
    have hsize := hplanned.1 ⟨plan, houtcome⟩
    constructor
    · rintro ⟨_, h⟩
      cases h
    · omega
  | error fault =>
    refine iff_of_true ⟨fault, rfl⟩ ?_
    by_contra hsize
    obtain ⟨plan, hplan⟩ := hplanned.2 (by omega)
    rw [houtcome] at hplan
    cases hplan

/-- **The plan of a transfer** under rules: as many ranges of the advised bytes as the file needs,
the last one possibly shorter, with every byte of the file in the one range of its quotient. -/
theorem ranges_of_plan {plan : Plan}
    (h : Plan.ofFile transfer.size (rules.bytesFor transfer) = .ok plan) :
    let total := transfer.size.toInt.toNat
    let bytes := (rules.bytesFor transfer).toNat
    plan.length = total ⌈/⌉ bytes ∧
    (∀ (i : Nat) (chunk : Chunk), plan[i]? = some chunk →
      chunk.IsRange total bytes i ∧ (i + 1 < plan.length → chunk.bytes = bytes)) ∧
    ∀ i offset : Nat, (∃ chunk, plan[i]? = some chunk ∧ chunk.Holds offset) ↔
      offset < total ∧ i = offset / bytes := by
  intro total bytes
  obtain ⟨⟨hnonneg, -⟩, rfl⟩ := Plan.ofFile_eq_ok_iff.1 h
  obtain ⟨hlength, hranges⟩ := Plan.cut_spec transfer.size.toUInt64 (rules.bytesFor transfer)
  have hholds := Plan.exists_holds_iff transfer.size.toUInt64 (rules.bytesFor transfer)
  rw [Plan.toNat_toUInt64 hnonneg, max_bytesFor] at hlength hranges hholds
  refine ⟨hlength, ?_, hholds⟩
  intro i chunk hget
  refine ⟨hranges i chunk hget, ?_⟩
  intro hnext
  rw [Plan.bytes_of_succ_lt hget hnext, max_bytesFor]

end Rules

/-! ## The command -/

namespace Program

variable (settings : Settings) (transport : Transport)

theorem plan_eq : plan transfer = Plan.ofFile transfer.size (Rules.standard.bytesFor transfer) :=
  rfl

theorem execute_plan_of_ok {plan : Plan}
    (h : Plan.ofFile transfer.size (Rules.standard.bytesFor transfer) = .ok plan) :
    execute settings transport (.plan transfer) = .printed plan.toDocument := by
  rw [← plan_eq] at h
  unfold execute
  simp only [h]

theorem execute_plan_of_error {fault : Plan.Fault}
    (h : Plan.ofFile transfer.size (Rules.standard.bytesFor transfer) = .error fault) :
    execute settings transport (.plan transfer) = .failed fault.message fault.causes := by
  rw [← plan_eq] at h
  unfold execute
  simp only [h]

/-- **From advice to a plan.** Under any rules a file is planned exactly if it is not negative and a
million chunks of the advised bytes reach its end, and the plan then cuts it exactly. So whatever
the rules are, some sizes are planned and some are refused; under the standard ones the two bounds
are closer, whatever was measured. The command prints such a plan, and fails with such a refusal. -/
theorem plan_outcomes :
    (∀ (rules : Rules) (transfer : Transfer),
      let total := transfer.size.toInt
      let bytes := (rules.bytesFor transfer).toNat
      let outcome := Plan.ofFile transfer.size (rules.bytesFor transfer)
      ((∃ plan, outcome = .ok plan) ↔ 0 ≤ total ∧ total ≤ 1000000 * bytes) ∧
      (∀ plan, outcome = .ok plan → plan.length = total.toNat ⌈/⌉ bytes ∧
        (∀ (i : Nat) (chunk : Chunk), plan[i]? = some chunk →
          chunk.IsRange total.toNat bytes i ∧ (i + 1 < plan.length → chunk.bytes = bytes)) ∧
        ∀ i offset : Nat, (∃ chunk, plan[i]? = some chunk ∧ chunk.Holds offset) ↔
          offset < total.toNat ∧ i = offset / bytes) ∧
      (0 ≤ total → total ≤ 4194304000000 → ∃ plan, outcome = .ok plan) ∧
      (268435456000000 < total → ∃ fault, outcome = .error fault)) ∧
    (∀ transfer : Transfer,
      let total := transfer.size.toInt
      let outcome := Plan.ofFile transfer.size (Rules.standard.bytesFor transfer)
      (0 ≤ total → total ≤ 90596966000000 → ∃ plan, outcome = .ok plan) ∧
      (251658240000000 < total → ∃ fault, outcome = .error fault)) ∧
    ∀ (settings : Settings) (transport : Transport) (transfer : Transfer),
      let planned := Plan.ofFile transfer.size (Rules.standard.bytesFor transfer)
      let outcome := execute settings transport (.plan transfer)
      (∃ plan, planned = .ok plan ∧ outcome = .printed plan.toDocument ∧ outcome.exitCode = 0) ∨
      ∃ fault, planned = .error fault ∧ outcome = .failed fault.message fault.causes ∧
        outcome.exitCode = 1 := by
  refine ⟨?_, ?_, ?_⟩
  · intro rules transfer total bytes outcome
    have hplan := rules.exists_plan_iff transfer
    have hfault := rules.exists_fault_iff transfer
    obtain ⟨hlow, hhigh⟩ := rules.bytesFor_mem_range transfer
    refine ⟨hplan, fun plan h => rules.ranges_of_plan transfer h, ?_, ?_⟩
    · intro hnonneg hle
      exact hplan.2 ⟨hnonneg, by omega⟩
    · intro hgt
      exact hfault.2 (.inr (by omega))
  · intro transfer total outcome
    constructor
    · intro hnonneg hle
      apply (Rules.standard.exists_plan_iff transfer).2
      refine ⟨hnonneg, ?_⟩
      -- within the last tier the least chunk of all rules is enough
      rcases Int.lt_or_le 10737418240 total with hbeyond | hwithin
      · have := Rules.le_standard_bytesFor hbeyond
        omega
      · have := Rules.standard.bytesFor_mem_range transfer
        omega
    · intro hgt
      have := Rules.standard_bytesFor_le transfer
      exact (Rules.standard.exists_fault_iff transfer).2 (.inr (by omega))
  · intro settings transport transfer planned outcome
    cases hplanned : planned with
    | ok plan =>
      have houtcome := execute_plan_of_ok transfer settings transport hplanned
      exact .inl ⟨plan, rfl, houtcome, congrArg Outcome.exitCode houtcome⟩
    | error fault =>
      have houtcome := execute_plan_of_error transfer settings transport hplanned
      exact .inr ⟨fault, rfl, houtcome, congrArg Outcome.exitCode houtcome⟩

/-- A size that the standard rules plan whatever was measured and one that they never plan, with a
bandwidth that is no number. -/
theorem plan_outcomes_at_nan :
    let planned : Transfer := ⟨90596966000000, none, some .nan, none⟩
    let refused : Transfer := ⟨251658240000001, none, some .nan, none⟩
    (∃ plan, Plan.ofFile planned.size (Rules.standard.bytesFor planned) = .ok plan) ∧
      ∃ fault, Plan.ofFile refused.size (Rules.standard.bytesFor refused) = .error fault := by
  intro planned refused
  obtain ⟨-, hstandard, -⟩ := plan_outcomes
  exact ⟨(hstandard planned).1 (by decide) (by decide), (hstandard refused).2 (by decide)⟩

end Program

end ChunkSizing
