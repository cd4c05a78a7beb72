import ChunkSizing.Proofs.Transfer.Bytes
import ChunkSizing.Remote
import ChunkSizing.Service

/-!
# ChunkSizing.Proofs.Remote.Usable — received advice in whole bytes.

Advice is received only if it is a positive finite number of megabytes. The bytes are rounded down
afterwards, so a positive size can still be no byte: the smallest size that is one is `2 ^ -20`
megabytes, and every size that is received falls on one of its two sides.
-/

namespace ChunkSizing

open Http

/-! ## What is received -/

/-- Received advice has passed the check. -/
theorem Remote.check_of_receive {response : Response} {advice : Advice}
    (h : Remote.receive response = .ok advice) : advice.check = .ok () := by
  unfold receive at h
  split at h
  · cases h
  · split at h
    · cases h
    · split at h
      · cases h
      · rename_i hcheck
        cases h
        exact hcheck

theorem Remote.check_of_advise {remote : Remote} {transport : Transport} {transfer : Transfer}
    {advice : Advice} (h : remote.advise transport transfer = .ok advice) :
    advice.check = .ok () := by
  unfold advise at h
  split at h
  · cases h
  · exact check_of_receive h

theorem Remote.adviseBytes_of_advise {remote : Remote} {transport : Transport}
    {transfer : Transfer} {advice : Advice} (h : remote.advise transport transfer = .ok advice) :
    remote.adviseBytes transport transfer = .ok (chunkBytes advice.chunkSize) := by
  unfold adviseBytes
  rw [h]
  rfl

/-! ## How many bytes it is -/

/-- **Received advice is a byte at least from `2 ^ -20` megabytes on.** Whatever passes the check is
at least one byte exactly if the size is not below one byte; and so it is with whatever a remote
advisor is taken at, whose bytes are those of the size. -/
theorem Remote.one_le_adviseBytes_iff :
    (∀ advice : Advice, advice.check = .ok () →
      (1 ≤ chunkBytes advice.chunkSize ↔ oneByte ≤ advice.chunkSize)) ∧
    ∀ (remote : Remote) (transport : Transport) (transfer : Transfer) (advice : Advice),
      remote.advise transport transfer = .ok advice →
        remote.adviseBytes transport transfer = .ok (chunkBytes advice.chunkSize) ∧
          (1 ≤ chunkBytes advice.chunkSize ↔ oneByte ≤ advice.chunkSize) := by
  constructor
  · intro advice hcheck
    exact Advice.one_le_chunkBytes_iff hcheck
  · intro remote transport transfer advice hadvise
    have hbytes := adviseBytes_of_advise hadvise
    exact ⟨hbytes, Advice.one_le_chunkBytes_iff (check_of_advise hadvise)⟩

/-- A size of exactly one byte is received and is one byte. -/
theorem Remote.one_le_adviseBytes_at_one_byte :
    let remote := Remote.ofBaseUrl "http://localhost:8080"
    let transport : Transport :=
      fun _ => some (Service.jsonResponse 200 (Advice.toDocument ⟨oneByte⟩))
    let transfer : Transfer := ⟨1, none, none, none⟩
    remote.advise transport transfer = .ok ⟨oneByte⟩ ∧
      remote.adviseBytes transport transfer = .ok (chunkBytes oneByte) ∧
      1 ≤ chunkBytes oneByte := by
  intro remote transport transfer
  have hadvise : remote.advise transport transfer = .ok ⟨oneByte⟩ := by decide +kernel
  obtain ⟨hbytes, hiff⟩ := one_le_adviseBytes_iff.2 remote transport transfer ⟨oneByte⟩ hadvise
  exact ⟨hadvise, hbytes, hiff.2 (by decide +kernel)⟩

/-- A tenth of a millionth of a megabyte is received as usable, and is no byte at all. -/
theorem Remote.adviseBytes_below_one_byte :
    let remote := Remote.ofBaseUrl "http://localhost:8080"
    let transport : Transport := fun _ =>
      some ⟨200, some "application/json", none,
        Utf8.ofString "\x7b\"chunk_size_mb\":1e-7\x7d"⟩
    let transfer : Transfer := ⟨1, none, none, none⟩
    ∃ advice, remote.advise transport transfer = .ok advice ∧ advice.check = .ok () ∧
      remote.adviseBytes transport transfer = .ok 0 := by
  intro remote transport transfer
  exact ⟨⟨Binary64.ofRank false 0x3e7ad7f29abcaf48⟩, by decide +kernel⟩

end ChunkSizing
