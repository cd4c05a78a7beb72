import ChunkSizing.Proofs.Json.Recognition

/-!
# ChunkSizing.Proofs.Json.Front — a record at the front of an input.

A text ends with its bracket, so a record is read the same whatever stands behind it. Hence an input
has a record at its front exactly if one of its beginnings is a record as a whole
(`Record.parseFront_eq_ok_iff`), and a whole record stays whole as long as only white space is put
behind it (`Record.parse_append_eq_ok_iff`).
-/

namespace ChunkSizing.Json.Record

variable {α δ : Type} {record : Record δ α} {input : List UInt8} {value : α}

/-- A record that is read the same whatever stands behind it. -/
def IsLocal (record : Record δ α) : Prop :=
  ∀ ⦃input value rest⦄, record.read input = .ok (value, rest) →
    ∃ front, input = front ++ rest ∧ ∀ back, record.read (front ++ back) = .ok (value, back)

/-- A record with a grammar is: what was read is a text, and a text is read before anything. -/
theorem Grammar.isLocal (grammar : record.Grammar) : record.IsLocal := by
  intro input value rest h
  obtain ⟨before, text, entries, last, rfl, hbefore, htext, hfills, hfinish⟩ :=
    grammar.read_sound h
  refine ⟨before ++ text, (List.append_assoc ..).symm, fun back => ?_⟩
  rw [List.append_assoc]
  exact grammar.read_complete hbefore htext hfills hfinish

/-- **A record at the front** of an input is a beginning that is a record as a whole. -/
theorem parseFront_eq_ok_iff (hrecord : record.IsLocal) : record.parseFront input = .ok value ↔
    ∃ front back, input = front ++ back ∧ record.parse front = .ok value := by
  rw [parseFront_eq_ok_iff_read]
  constructor
  · rintro ⟨back, hread⟩
    obtain ⟨front, rfl, hfront⟩ := hrecord hread
    refine ⟨front, back, rfl, parse_eq_ok_iff.2 ⟨[], ?_, nofun⟩⟩
    rw [← hfront [], List.append_nil]
  · rintro ⟨front, back, rfl, hparse⟩
    obtain ⟨rest, hread, -⟩ := parse_eq_ok_iff.1 hparse
    obtain ⟨text, rfl, htext⟩ := hrecord hread
    exact ⟨rest ++ back, by rw [List.append_assoc, htext]⟩

/-- An input without a record at its front is refused as a whole for the same reason. -/
theorem parse_of_parseFront_eq_error {refusal : Refusal}
    (h : record.parseFront input = .error refusal) : record.parse input = .error refusal := by
  unfold parseFront at h
  unfold parse
  cases hread : record.read input with
  | error fault =>
    rw [hread] at h
    exact h
  | ok found =>
    rw [hread] at h
    cases h

/-- **What may stand behind a whole record** is white space. -/
theorem parse_append_eq_ok_iff (hrecord : record.IsLocal) {front back : List UInt8} {found : α}
    (h : record.parse front = .ok value) :
    record.parse (front ++ back) = .ok found ↔ found = value ∧ ∀ b ∈ back, isBlank b = true := by
  obtain ⟨rest, hread, hrest⟩ := parse_eq_ok_iff.1 h
  obtain ⟨text, rfl, htext⟩ := hrecord hread
  rw [parse_eq_ok_iff, List.append_assoc, htext]
  simp only [Except.ok.injEq, Prod.mk.injEq]
  constructor
  · rintro ⟨_, ⟨rfl, rfl⟩, hblank⟩
    exact ⟨rfl, fun b hb => hblank b (List.mem_append_right rest hb)⟩
  · rintro ⟨rfl, hback⟩
    refine ⟨_, ⟨rfl, rfl⟩, fun b hb => ?_⟩
    rcases List.mem_append.1 hb with hb | hb
    · exact hrest b hb
    · exact hback b hb

end ChunkSizing.Json.Record
