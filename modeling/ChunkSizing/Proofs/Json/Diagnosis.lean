import ChunkSizing.Proofs.Json.PromptRecord

/-!
# ChunkSizing.Proofs.Json.Diagnosis — where a body is refused, and what could change that.

A refusal points at an offset of the body. The bytes up to there and the one behind settle it: every
body that begins with them is refused in the same words at the same place (`Record.diagnosis`).
Bytes that are no text are told from others at the closing quote of their string only, and then it
is the bytes up to that quote that settle the refusal.
-/

namespace ChunkSizing.Json

open Reader

variable {α δ : Type} {record : Record δ α} {input other : List UInt8} {refusal : Refusal}
  {fault : Fault}

/-! ## Positions -/

/-- **A refusal points at an offset.** Its line counts the line feeds before the offset, and its
column the bytes between the last of them and the offset. -/
structure Refusal.PointsAt (refusal : Refusal) (input : List UInt8) (offset : Nat) : Prop where
  offset_le : offset ≤ input.length
  line_eq : refusal.line = 1 + (input.take offset).count 10
  column_eq : ∃ lines last, input.take offset = lines ++ last ∧
    (lines = [] ∨ ∃ earlier, lines = earlier ++ [10]) ∧ 10 ∉ last ∧ refusal.column = last.length

/-- The last line of some bytes. -/
theorem exists_lastLine (bytes : List UInt8) : ∃ lines last, bytes = lines ++ last ∧
    (lines = [] ∨ ∃ earlier, lines = earlier ++ [10]) ∧ 10 ∉ last ∧
      (bytes.reverse.takeWhile (· != 10)).length = last.length := by
  refine ⟨(bytes.reverse.dropWhile (· != 10)).reverse, (bytes.reverse.takeWhile (· != 10)).reverse,
    ?_, ?_, ?_, List.length_reverse.symm⟩
  · rw [← List.reverse_append, List.takeWhile_append_dropWhile, List.reverse_reverse]
  · have hhead := List.head?_dropWhile_not (· != 10) bytes.reverse
    cases hlines : bytes.reverse.dropWhile (· != 10) with
    | nil => exact .inl rfl
    | cons b earlier =>
      rw [hlines] at hhead
      obtain rfl : b = 10 := by simpa using hhead
      exact .inr ⟨earlier.reverse, List.reverse_cons⟩
  · intro hlast
    have hbyte := List.mem_takeWhile_imp (List.mem_reverse.1 hlast)
    simp at hbyte

/-- **Positions are honest.** -/
theorem Fault.locate_pointsAt (fault : Fault) (input : List UInt8) :
    (fault.locate input).PointsAt input (input.length - fault.unread) where
  offset_le := Nat.sub_le _ _
  line_eq := Nat.add_comm _ _
  column_eq := exists_lastLine _

/-- On a single line the column is the offset. -/
theorem Refusal.PointsAt.column_of_oneLine {offset : Nat} (h : refusal.PointsAt input offset)
    (hline : 10 ∉ input) : refusal.column = offset := by
  obtain ⟨lines, last, htake, hlines, -, hcolumn⟩ := h.column_eq
  obtain rfl | ⟨earlier, rfl⟩ := hlines
  · rw [hcolumn, ← List.nil_append last, ← htake, List.length_take_of_le h.offset_le]
  · have hfeed : 10 ∈ input.take offset := by simp [htake]
    exact absurd (List.mem_of_mem_take hfeed) hline

/-! ## Bodies that begin alike -/

/-- The byte at an offset, and what stands on both sides of it. -/
theorem exists_split {offset : Nat} (h : offset < input.length) :
    ∃ front c back, input = front ++ c :: back ∧ front.length = offset := by
  refine ⟨input.take offset, input[offset], input.drop (offset + 1), ?_,
    List.length_take_of_le h.le⟩
  rw [List.cons_getElem_drop_succ, List.take_append_drop]

theorem exists_back {front back : List UInt8} {c : UInt8}
    (h : other.take (front.length + 1) = (front ++ c :: back).take (front.length + 1)) :
    ∃ back', other = front ++ c :: back' := by
  have hfront : (front ++ c :: back).take (front.length + 1) = front ++ [c] := by
    rw [List.take_length_add_append, List.take_succ_cons, List.take_zero]
  refine ⟨other.drop (front.length + 1), ?_⟩
  calc other = other.take (front.length + 1) ++ other.drop (front.length + 1) :=
        (List.take_append_drop ..).symm
    _ = front ++ c :: other.drop (front.length + 1) := by
        rw [h, hfront, List.append_assoc, List.singleton_append]

/-! ## Whole bodies -/

namespace Record

/-- A record and nothing but white space behind it. -/
def readWhole (record : Record δ α) : Reader α :=
  record.read.andThen fun value => Reader.blank.andThen fun _ =>
    onFirst (.ok value) fun c tail => stopPast .trailingCharacters ([c] ++ tail)

theorem parse_eq_error_iff : record.parse input = .error refusal ↔
    ∃ fault, record.readWhole input = .error fault ∧ fault.locate input = refusal := by
  unfold parse readWhole andThen Reader.blank
  cases record.read input with
  | error fault => simp
  | ok found =>
    obtain ⟨value, rest⟩ := found
    dsimp only
    cases skipBlank rest with
    | nil => simp [onFirst, ending]
    | cons c tail => simp [onFirst_cons, stopPast]

theorem prompt_readWhole (h : Prompt record.read) : Prompt record.readWhole :=
  h.andThen fun _ =>
    prompt_behindBlank _ (fun c => (prompt_stopPast (by decide)).again [c]) (by simp)

/-- The first bytes of a body **settle** a refusal: whatever follows them, it is the same. -/
def SettledBy (record : Record δ α) (input : List UInt8) (count : Nat) (refusal : Refusal) : Prop :=
  ∀ other, other.take count = input.take count → record.parse other = .error refusal

/-- The byte behind the position of a fault settles the refusal. -/
theorem settledBy_of_error (h : Prompt record.read) (hread : record.readWhole input = .error fault)
    (hcause : fault.cause ≠ .invalidText) (hlt : input.length - fault.unread < input.length) :
    record.SettledBy input (input.length - fault.unread + 1) (fault.locate input) := by
  intro other hother
  have hle := (prompt_readWhole h).unread_le hread hcause
  obtain ⟨front, c, back, rfl, hfront⟩ := exists_split hlt
  have hunread : fault.unread = back.length + 1 := by
    simp only [List.nil_append, List.length_append, List.length_cons] at hfront hle
    omega
  rw [← hfront] at hother
  obtain ⟨back', rfl⟩ := exists_back hother
  refine parse_eq_error_iff.2
    ⟨_, (prompt_readWhole h).error_of hread hcause hunread back', ?_⟩
  rw [locate_append front (c :: back) hunread, locate_append front (c :: back') rfl]

/-- Bytes that are no text are refused at their closing quote, which settles the refusal. -/
theorem settledBy_of_invalidText (h : Prompt record.read)
    (hread : record.readWhole input = .error fault) (hcause : fault.cause = .invalidText) :
    ∃ close, input.length - fault.unread ≤ close ∧ input[close]? = some (ascii '"') ∧
      record.SettledBy input (close + 1) (fault.locate input) := by
  obtain ⟨front, back, distance, hinput, ⟨hpos, hle⟩, hunread, hall⟩ :=
    (prompt_readWhole h).settled hread hcause
  obtain rfl : input = front ++ ascii '"' :: back := hinput
  refine ⟨front.length, ?_, by simp, ?_⟩
  · rw [List.length_append, List.length_cons]
    omega
  · intro other hother
    obtain ⟨back', rfl⟩ := exists_back hother
    refine parse_eq_error_iff.2 ⟨_, hall rfl, ?_⟩
    -- the position is the same number of bytes before the quote
    have hposition (back : List UInt8) : front ++ ascii '"' :: back =
        front.take (front.length + 1 - distance) ++
          (front.drop (front.length + 1 - distance) ++ ascii '"' :: back) := by
      rw [← List.append_assoc, List.take_append_drop]
    have hlength (back : List UInt8) : back.length + distance =
        (front.drop (front.length + 1 - distance) ++ ascii '"' :: back).length := by
      rw [List.length_append, List.length_drop, List.length_cons]
      omega
    rw [hposition back, hposition back', locate_append _ _ (hunread.trans (hlength back)),
      locate_append _ _ (hlength back')]

/-! ## Diagnoses -/

/-- **A diagnosis**: the offset at which a body is refused, and the bytes that settle it. -/
structure Diagnosis (record : Record δ α) (input : List UInt8) (refusal : Refusal) (offset : Nat) :
    Prop where
  pointsAt : refusal.PointsAt input offset
  ended : refusal.cause.category = .eof → offset = input.length
  settled : refusal.cause ≠ .invalidText → offset < input.length →
    record.SettledBy input (offset + 1) refusal
  quoted : refusal.cause = .invalidText → ∃ close, offset ≤ close ∧
    input[close]? = some (ascii '"') ∧ record.SettledBy input (close + 1) refusal

/-- **Every refusal of a body is a diagnosis**, if the record is read promptly. -/
theorem diagnosis (h : Prompt record.read) (hparse : record.parse input = .error refusal) :
    ∃ offset, record.Diagnosis input refusal offset := by
  obtain ⟨fault, hread, rfl⟩ := parse_eq_error_iff.1 hparse
  refine ⟨input.length - fault.unread, fault.locate_pointsAt input, ?_, ?_, ?_⟩
  · intro heof
    rw [(prompt_readWhole h).ended hread heof, Nat.sub_zero]
  · exact settledBy_of_error h hread
  · exact settledBy_of_invalidText h hread

end Record

end ChunkSizing.Json
