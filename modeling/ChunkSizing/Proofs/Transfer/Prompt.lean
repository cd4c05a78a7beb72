import ChunkSizing.Proofs.Json.PromptRecord
import ChunkSizing.Transfer.Format

/-!
# ChunkSizing.Proofs.Transfer.Prompt — transfers and advice are read promptly.

So the first fault of a body decides how it is refused, and nothing behind it has a say.
-/

namespace ChunkSizing

open Json Json.Reader

theorem Transfer.prompt_read : Prompt Transfer.format.read := by
  apply Record.prompt_read
  have hmeasurement := prompt_optional prompt_numberValue
  simp only [format, List.forall_mem_cons]
  exact ⟨fun _ => prompt_storing prompt_integerValue _,
    fun _ => prompt_storing (prompt_optional prompt_textValue) _,
    fun _ => prompt_storing hmeasurement _, fun _ => prompt_storing hmeasurement _, nofun⟩

theorem Advice.prompt_read : Prompt Advice.format.read := by
  apply Record.prompt_read
  simp only [format, List.forall_mem_singleton]
  exact fun _ => prompt_storing prompt_numberValue _

end ChunkSizing
