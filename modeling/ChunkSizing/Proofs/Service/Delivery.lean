import ChunkSizing.Proofs.Transfer.Bytes
import ChunkSizing.Proofs.Transfer.Format
import ChunkSizing.Remote
import ChunkSizing.Service

/-!
# ChunkSizing.Proofs.Service.Delivery — advice from the service to the caller.

A response of status 200 to a request for advice is the advice on the transfer in its body
(`respond_of_status`), and a caller who gets such a response makes of it what `Json.reread` makes of
the chunk size (`receive_advice`). Advice of rules stays in its range all the way, whatever the
rules are and whatever was asked.
-/

namespace ChunkSizing

open Binary64 Http

namespace Service

/-! ## Responses to requests for advice -/

variable {estimator : Estimator} {request : Request}

theorem respond_advice (hmethod : request.method = "POST")
    (hpath : request.path = "/predict-chunk-size") :
    respond estimator request = adviceResponse estimator request := by
  have hroute : Route.of? request.path = some .advice := by
    rw [hpath]
    rfl
  have hmember : request.method ∈ Route.advice.methods := by
    rw [hmethod]
    exact List.mem_singleton_self _
  unfold respond
  simp only [hroute, not_not.2 hmember, if_false]

theorem status_ne (rejection : Rejection) : rejection.status ≠ 200 := by
  cases rejection with
  | notJson => decide
  | bodyTooLong => decide
  | unreadable refusal =>
    show (if refusal.cause.category = .data then 422 else 400) ≠ 200
    split <;> decide

/-- The status tells whether there was a transfer. -/
theorem status_adviceResponse : (adviceResponse estimator request).status = 200 ↔
    ∃ transfer, transferOf request = .ok transfer := by
  unfold adviceResponse
  cases htransfer : transferOf request with
  | ok transfer => exact ⟨fun _ => ⟨transfer, rfl⟩, fun _ => rfl⟩
  | error rejection =>
    constructor
    · intro h
      exact absurd h (status_ne rejection)
    · rintro ⟨_, h⟩
      cases h

theorem adviceResponse_of_ok {transfer : Transfer} (h : transferOf request = .ok transfer) :
    adviceResponse estimator request = jsonResponse 200 (estimator.advise transfer).toDocument := by
  unfold adviceResponse
  rw [h]

/-- **A response of status 200** is advice on some transfer. -/
theorem respond_of_status (hmethod : request.method = "POST")
    (hpath : request.path = "/predict-chunk-size")
    (hstatus : (respond estimator request).status = 200) :
    ∃ transfer, respond estimator request =
      jsonResponse 200 (estimator.advise transfer).toDocument := by
  rw [respond_advice hmethod hpath] at hstatus ⊢
  obtain ⟨transfer, htransfer⟩ := status_adviceResponse.1 hstatus
  exact ⟨transfer, adviceResponse_of_ok htransfer⟩

end Service

/-! ## Receiving advice -/

/-- **Finite usable advice is received**, as it comes back from its text. -/
theorem Remote.receive_advice (advice : Advice) (hfinite : advice.chunkSize.isFinite = true)
    (hcheck : Advice.check ⟨Json.reread advice.chunkSize⟩ = .ok ()) :
    Remote.receive (Service.jsonResponse 200 advice.toDocument) =
      .ok ⟨Json.reread advice.chunkSize⟩ := by
  have hparse := Advice.parse_toDocument advice .compact hfinite
  have hsuccess : Status.isSuccess 200 = true := rfl
  unfold receive Service.jsonResponse
  simp only [hsuccess, Bool.not_true, Bool.false_eq_true, if_false, hparse, hcheck]

theorem Rules.exists_rank_of_advise (rules : Rules) (transfer : Transfer) :
    ∃ rank, InRange rank ∧ rules.estimator.advise transfer = ⟨ofRank false rank⟩ := by
  obtain ⟨rank, hrange, heq⟩ :=
    exists_rank_of_clamp (rules.product transfer.size transfer.bandwidth transfer.latency)
  exact ⟨rank, hrange, congrArg Advice.mk heq⟩

/-- Advice of the range is received, and stays in the range. -/
theorem Remote.receive_inRange {rank : Nat} (h : InRange rank) :
    Remote.receive (Service.jsonResponse 200 (Advice.toDocument ⟨ofRank false rank⟩)) =
      .ok ⟨ofRank false (Json.rereadRank rank)⟩ := by
  have hreread := Json.reread_ofRank false h.lt
  have hreceive := receive_advice ⟨ofRank false rank⟩
    ((isFinite_ofRank false rank).trans (decide_eq_true h.lt)) (by
      rw [hreread]
      exact h.rereadRank.check)
  rwa [hreread] at hreceive

/-! ## The range on the whole way -/

/-- The text of a chunk size in a response is a numeral from end to end. -/
theorem Service.numeral_advice {rank : Nat} (h : InRange rank) : ∃ chars numeral,
    (jsonResponse 200 (Advice.toDocument ⟨ofRank false rank⟩)).body =
      Utf8.encode ("\x7b\"chunk_size_mb\":".toList ++ chars ++ ['\x7d']) ∧
    Json.numeral .kept (Utf8.encode chars) = .ok (numeral, []) := by
  have hread := Json.numeral_written .kept (Json.wellFormed_writtenNumber false h.lt)
    (show Json.EndsNumeral [] from nofun)
  rw [Json.chars_writtenNumber false h.lt, List.append_nil] at hread
  refine ⟨_, _, ?_, hread⟩
  have hchars : (Json.Atom.number (ofRank false rank)).chars =
      Json.numberLayout.text (ofRank false rank) := by
    rw [Json.Atom.chars, isFinite_ofRank, if_pos (decide_eq_true h.lt)]
  have hopening : '\x7b' :: Json.Spacing.compact.line 1 ++ Json.quote "chunk_size_mb".toList ++
      Json.Spacing.compact.colon = "\x7b\"chunk_size_mb\":".toList := by decide
  show Utf8.encode ((Advice.toDocument ⟨ofRank false rank⟩).chars .compact) = _
  rw [Advice.toDocument, Json.chars_single, hopening, hchars, Json.Spacing.line, List.append_nil]

/-- **Advice of rules arrives, and in its range.** Whatever the rules are, every response of status
200 to a request for advice holds a numeral, every caller who is sent that response takes it, and
what is taken lies in the range, in megabytes and in bytes. -/
theorem Service.advice_arrives_in_range (rules : Rules) (request : Request)
    (hmethod : request.method = "POST") (hpath : request.path = "/predict-chunk-size")
    (hstatus : (respond rules.estimator request).status = 200) :
    (∃ chars numeral,
      (respond rules.estimator request).body =
        Utf8.encode ("\x7b\"chunk_size_mb\":".toList ++ chars ++ ['\x7d']) ∧
      Json.numeral .kept (Utf8.encode chars) = .ok (numeral, [])) ∧
    ∀ (remote : Remote) (transport : Transport) (transfer : Transfer),
      transport (remote.request transfer) = some (respond rules.estimator request) →
      ∃ advice bytes, remote.advise transport transfer = .ok advice ∧
        4 ≤ advice.chunkSize ∧ advice.chunkSize ≤ 256 ∧
        remote.adviseBytes transport transfer = .ok bytes ∧
        4194304 ≤ bytes ∧ bytes ≤ 268435456 := by
  obtain ⟨asked, hresponse⟩ := respond_of_status hmethod hpath hstatus
  obtain ⟨rank, hrange, hadvice⟩ := rules.exists_rank_of_advise asked
  rw [hresponse, hadvice]
  refine ⟨numeral_advice hrange, ?_⟩
  intro remote transport transfer htransport
  have hadvise : remote.advise transport transfer =
      .ok ⟨ofRank false (Json.rereadRank rank)⟩ := by
    unfold Remote.advise
    rw [htransport]
    exact Remote.receive_inRange hrange
  have hbytes : remote.adviseBytes transport transfer =
      .ok (chunkBytes (ofRank false (Json.rereadRank rank))) := by
    unfold Remote.adviseBytes
    rw [hadvise]
    rfl
  obtain ⟨hlow, hhigh⟩ := chunkBytes_mem_range hrange.rereadRank
  exact ⟨_, _, hadvise, hrange.rereadRank.four_le, hrange.rereadRank.le_256, hbytes, hlow, hhigh⟩

/-- Rules whose only base is no number: what arrives is still a size of the range. -/
theorem Service.nan_arrives_in_range :
    let rules : Rules := ⟨[], .nan, ⟨0, 1, 0, 1⟩, ⟨0, 1, 0, 1⟩⟩
    let request : Request := ⟨"POST", "/predict-chunk-size",
      [("content-type", Utf8.ofString "application/json")],
      Utf8.ofString "\x7b\"size_bytes\":1\x7d"⟩
    rules.product 1 none none = .nan ∧
    ∃ advice, (Remote.ofBaseUrl "http://localhost:8080").advise
        (fun _ => some (respond rules.estimator request)) ⟨1, none, none, none⟩ = .ok advice ∧
      4 ≤ advice.chunkSize ∧ advice.chunkSize ≤ 256 := by
  intro rules request
  have hpath : request.path = "/predict-chunk-size" := by decide +kernel
  have hstatus : (respond rules.estimator request).status = 200 := by decide +kernel
  obtain ⟨-, harrives⟩ := advice_arrives_in_range rules request rfl hpath hstatus
  obtain ⟨advice, _, hadvise, hlow, hhigh, -⟩ :=
    harrives (Remote.ofBaseUrl "http://localhost:8080")
      (fun _ => some (respond rules.estimator request)) ⟨1, none, none, none⟩ rfl
  exact ⟨by decide +kernel, advice, hadvise, hlow, hhigh⟩

end ChunkSizing
