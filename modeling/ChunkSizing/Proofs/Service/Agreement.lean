import ChunkSizing.Program
import ChunkSizing.Proofs.Rules.Rereading
import ChunkSizing.Proofs.Service.Delivery

/-!
# ChunkSizing.Proofs.Service.Agreement — asking the service, and asking the rules directly.

A caller who asks a service over the standard rules gets the advice on the transfer as it comes back
from its text (`advise_serving`). That is the advice on the transfer itself, unless the latency is
`Rules.blurredLatency`, the one finite measurement that its text puts on the other side of a limit.
-/

namespace ChunkSizing

open Binary64 Http

/-! ## A service as a transport -/

/-- The transport to a service over an estimator: every request is answered. -/
def Service.serving (estimator : Estimator) : Transport :=
  fun request => some (Service.respond estimator request)

variable {transfer : Transfer}

theorem Service.hasJson_request (remote : Remote) (transfer : Transfer) :
    hasJson (remote.request transfer) = true := by
  have hheader : (remote.request transfer).header? "content-type" =
      some (Utf8.ofString "application/json") := by
    show (List.find? _ [("content-type", Utf8.ofString "application/json")]).map Prod.snd = _
    decide +kernel
  unfold hasJson
  rw [hheader]
  show MediaType.namesJson (Utf8.ofString "application/json") = true
  decide +kernel

/-- The service reads the transfer that the caller wrote, as it comes back. -/
theorem Service.transferOf_request (remote : Remote) (hfinite : transfer.IsFinite)
    (hlength : (remote.request transfer).body.length ≤ bodyLimit) :
    transferOf (remote.request transfer) = .ok transfer.reread := by
  have hparse : Transfer.format.parseFront (remote.request transfer).body = .ok transfer.reread :=
    Transfer.parseFront_toDocument transfer hfinite
  unfold transferOf
  rw [hasJson_request]
  simp only [Bool.not_true, Bool.false_eq_true, if_false, if_neg (Nat.not_lt.2 hlength), hparse]

namespace Rules

/-! ## The standard rules -/

theorem advise_eq (rules : Rules) (transfer : Transfer) : rules.estimator.advise transfer =
    ⟨clampChunkSize (rules.baseFor (megabytesOf transfer.size) *
      rules.bandwidth.factor transfer.bandwidth * rules.latency.factor transfer.latency)⟩ :=
  rfl

/-- Advice of the standard rules comes back as it was. -/
theorem reread_advise (transfer : Transfer) :
    Json.reread (standard.estimator.advise transfer).chunkSize =
      (standard.estimator.advise transfer).chunkSize := by
  rw [Estimator.advise, reread_estimate]

/-- **The standard rules see through the text** of every transfer but those of the latency that is
lost. -/
theorem advise_reread_eq_iff (hfinite : transfer.IsFinite) :
    standard.estimator.advise transfer.reread = standard.estimator.advise transfer ↔
      transfer.latency ≠ some blurredLatency := by
  obtain ⟨size, mimeType, bandwidth, latency⟩ := transfer
  obtain ⟨hbandwidth, hlatency⟩ := hfinite
  have hbandwidthFactor : standard.bandwidth.factor (bandwidth.map Json.reread) =
      standard.bandwidth.factor bandwidth := by
    cases bandwidth with
    | none => rfl
    | some x => exact factor_bandwidth_reread (hbandwidth x rfl)
  rw [advise_eq, advise_eq, Advice.mk.injEq]
  simp only [Transfer.reread, hbandwidthFactor]
  constructor
  · rintro heq rfl
    -- the factor is lost, and no clamp hides it: the two chunk sizes differ
    obtain ⟨hbefore, hafter⟩ := factor_blurredLatency
    rw [Option.map_some, hafter, hbefore] at heq
    exact clamp_aboveFactor_ne _ (baseFor_mem standard _) _ (Adjustment.factor_mem _ bandwidth) heq
  · intro hne
    cases latency with
    | none => rfl
    | some x =>
      rw [Option.map_some, factor_latency_reread (hlatency x rfl) fun hx => hne (congrArg some hx)]

end Rules

/-! ## Agreement -/

/-- **What a caller gets** from a service over the standard rules. -/
theorem Remote.advise_serving (remote : Remote)
    (hpath : (remote.request transfer).path = "/predict-chunk-size") (hfinite : transfer.IsFinite)
    (hlength : (remote.request transfer).body.length ≤ Service.bodyLimit) :
    remote.advise (Service.serving Rules.standard.estimator) transfer =
      .ok (Rules.standard.estimator.advise transfer.reread) := by
  obtain ⟨rank, hrange, hadvice⟩ := Rules.standard.exists_rank_of_advise transfer.reread
  have hreread := Rules.reread_advise transfer.reread
  rw [hadvice] at hreread ⊢
  have hresponse : Service.respond Rules.standard.estimator (remote.request transfer) =
      Service.jsonResponse 200 (Advice.toDocument ⟨ofRank false rank⟩) := by
    rw [Service.respond_advice rfl hpath,
      Service.adviceResponse_of_ok (Service.transferOf_request remote hfinite hlength), hadvice]
  unfold Remote.advise Service.serving
  rw [hresponse]
  -- read once more on the way back, where each estimate stands still
  show Remote.receive _ = _
  rw [receive_inRange hrange, ← Json.reread_ofRank false hrange.lt, hreread]

theorem Advice.toDocument_injective {one other : Advice}
    (h : one.toDocument = other.toDocument) : one = other := by
  obtain ⟨x⟩ := one
  obtain ⟨y⟩ := other
  simp only [toDocument, Json.Document.record.injEq, List.cons.injEq, Prod.mk.injEq, true_and,
    and_true, Json.Atom.number.injEq] at h
  rw [h]

/-- **Remote and local advice agree** on every transfer with finite measurements, except where the
latency is the one that is lost. The remote advice is always there; and a query to the service
prints what a prediction prints under the same condition. -/
theorem Remote.advise_eq_local_iff (remote : Remote) (transfer : Transfer)
    (hpath : (remote.request transfer).path = "/predict-chunk-size") (hfinite : transfer.IsFinite)
    (hlength : (remote.request transfer).body.length ≤ Service.bodyLimit) :
    (∃ advice, remote.advise (Service.serving Rules.standard.estimator) transfer = .ok advice) ∧
    (remote.advise (Service.serving Rules.standard.estimator) transfer =
        .ok (Program.advise transfer) ↔ transfer.latency ≠ some Rules.blurredLatency) ∧
    ∀ (settings : Settings) (url : Option String) (transport : Transport),
      Remote.ofBaseUrl (url.getD settings.advisorUrl) = remote →
      (Program.execute settings (Service.serving Rules.standard.estimator) (.query transfer url) =
          Program.execute settings transport (.predict transfer) ↔
        transfer.latency ≠ some Rules.blurredLatency) := by
  have hadvise := remote.advise_serving hpath hfinite hlength
  have hiff := Rules.advise_reread_eq_iff hfinite
  refine ⟨⟨_, hadvise⟩, ?_, ?_⟩
  · rw [hadvise, Except.ok.injEq]
    exact hiff
  · rintro settings url transport rfl
    unfold Program.execute
    simp only [hadvise, Outcome.printed.injEq]
    rw [← hiff]
    exact ⟨fun h => Advice.toDocument_injective h, fun h => congrArg Advice.toDocument h⟩

/-- A latency of one hundred milliseconds is no exception. -/
theorem Remote.advise_eq_local_at_100 :
    (Remote.ofBaseUrl "http://localhost:8080").advise (Service.serving Rules.standard.estimator)
      ⟨1048576, some "text/plain", some 250, some 100⟩ =
        .ok (Program.advise ⟨1048576, some "text/plain", some 250, some 100⟩) := by
  have hlatency : (some 100 : Option Binary64) ≠ some Rules.blurredLatency := by decide +kernel
  refine ((Remote.advise_eq_local_iff _ _ ?_ ⟨?_, ?_⟩ ?_).2.1).2 hlatency
  · decide +kernel
  · rintro x hx
    obtain rfl := Option.some.inj hx
    decide +kernel
  · rintro x hx
    obtain rfl := Option.some.inj hx
    decide +kernel
  · decide +kernel

/-- The latency that is lost: the service answers eight megabytes where the rules say ten. -/
theorem Remote.advise_ne_local :
    (Remote.ofBaseUrl "http://localhost:8080").advise (Service.serving Rules.standard.estimator)
      ⟨1048576, none, none, some Rules.blurredLatency⟩ = .ok ⟨8⟩ ∧
    Program.advise ⟨1048576, none, none, some Rules.blurredLatency⟩ = ⟨10⟩ := by
  decide +kernel

end ChunkSizing
