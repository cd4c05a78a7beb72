import ChunkSizing.Proofs.Json.Diagnosis
import ChunkSizing.Proofs.Transfer.Prompt

/-!
# ChunkSizing.Proofs.Transfer.Diagnosis — refusals of transfers and of advice.

Both formats are read promptly, so every body that is refused has a diagnosis. For bytes that are no
text it reaches to the quote behind them: a front of them may be the front of a text as well, and
only what follows tells.
-/

namespace ChunkSizing

open Json

/-- **Every refusal has its place in the body**, and the bytes up to there settle it. -/
theorem formats_diagnosis (body : List UInt8) :
    (∀ refusal, Transfer.format.parse body = .error refusal →
      ∃ offset, Transfer.format.Diagnosis body refusal offset) ∧
    ∀ refusal, Advice.format.parse body = .error refusal →
      ∃ offset, Advice.format.Diagnosis body refusal offset := by
  constructor
  · intro refusal hparse
    exact Record.diagnosis Transfer.prompt_read hparse
  · intro refusal hparse
    exact Record.diagnosis Advice.prompt_read hparse

/-- A size that is no integer, on the second line, and advice that is cut off. -/
theorem formats_diagnosis_of_bodies :
    (∃ offset, Transfer.format.Diagnosis (Utf8.ofString "[\n true, 1]")
      ⟨.wrongKind (.boolean true) .integer, 2, 5, some (.element 0)⟩ offset) ∧
    ∃ offset, Advice.format.Diagnosis (Utf8.ofString "\x7b\"chunk_size_mb\":")
      ⟨.ended .value, 1, 17, some (.member "chunk_size_mb")⟩ offset := by
  constructor
  · exact (formats_diagnosis _).1 _ (by decide +kernel)
  · exact (formats_diagnosis _).2 _ (by decide +kernel)

/-- **Before the closing quote** a refusal of bytes that are no text is not settled: those up to its
position and the one behind may be the beginning of a character. -/
theorem Transfer.unsettled_before_quote :
    let body : List UInt8 := [0x5b, 0x31, 0x2c, 0x22, 0xe2, 0x82, 0x41, 0x22, 0x5d]
    ∃ refusal, Transfer.format.parse body = .error refusal ∧
      ∀ offset, refusal.PointsAt body offset → offset < body.length ∧
        ∃ other transfer, other.take (offset + 1) = body.take (offset + 1) ∧
          Transfer.format.parse other = .ok transfer := by
  intro body
  refine ⟨⟨.invalidText, 1, 5, some (.element 1)⟩, by decide +kernel, ?_⟩
  intro offset hpoints
  obtain rfl : 5 = offset := hpoints.column_of_oneLine (by decide)
  refine ⟨by decide, [0x5b, 0x31, 0x2c, 0x22, 0xe2, 0x82, 0xac, 0x22, 0x5d],
    ⟨1, some "€", none, none⟩, by decide, by decide +kernel⟩

end ChunkSizing
