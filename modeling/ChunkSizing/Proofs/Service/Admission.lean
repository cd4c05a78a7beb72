import ChunkSizing.Proofs.Json.Front
import ChunkSizing.Proofs.Service.Delivery

/-!
# ChunkSizing.Proofs.Service.Admission — which bodies are answered with advice.

A body is answered with advice if one of its beginnings is a transfer; what stands behind that
beginning is not looked at. A reader of whole bodies refuses anything but white space there, and
agrees with the service on every other body, refusals and their wording included.
-/

namespace ChunkSizing

open Http

theorem Transfer.format_isLocal : Transfer.format.IsLocal := Transfer.grammar.isLocal

namespace Service

variable {estimator : Estimator} {request : Request}

/-! ## Transfers of admissible requests -/

theorem transferOf_eq (hjson : hasJson request = true) (hlength : request.body.length ≤ bodyLimit) :
    transferOf request = (Transfer.format.parseFront request.body).mapError .unreadable := by
  unfold transferOf
  simp only [hjson, Bool.not_true, Bool.false_eq_true, if_false, if_neg (Nat.not_lt.2 hlength)]
  cases Transfer.format.parseFront request.body with
  | ok transfer => rfl
  | error refusal => rfl

theorem transferOf_eq_ok_iff (hjson : hasJson request = true)
    (hlength : request.body.length ≤ bodyLimit) {transfer : Transfer} :
    transferOf request = .ok transfer ↔
      ∃ front back, request.body = front ++ back ∧ Transfer.format.parse front = .ok transfer := by
  rw [← Json.Record.parseFront_eq_ok_iff Transfer.format_isLocal, transferOf_eq hjson hlength]
  cases Transfer.format.parseFront request.body with
  | ok found => simp only [Except.mapError, Except.ok.injEq]
  | error refusal => simp only [Except.mapError, reduceCtorEq]

theorem status_adviceResponse_iff (hjson : hasJson request = true)
    (hlength : request.body.length ≤ bodyLimit) :
    (adviceResponse estimator request).status = 200 ↔
      ∃ front back transfer, request.body = front ++ back ∧
        Transfer.format.parse front = .ok transfer := by
  rw [status_adviceResponse]
  constructor
  · rintro ⟨transfer, h⟩
    obtain ⟨front, back, hbody, hfront⟩ := (transferOf_eq_ok_iff hjson hlength).1 h
    exact ⟨front, back, transfer, hbody, hfront⟩
  · rintro ⟨front, back, transfer, hbody, hfront⟩
    exact ⟨transfer, (transferOf_eq_ok_iff hjson hlength).2 ⟨front, back, hbody, hfront⟩⟩

/-- **A whole body is refused in the same words**, if no beginning of it is a transfer. -/
theorem adviceResponse_of_status_ne (hjson : hasJson request = true)
    (hlength : request.body.length ≤ bodyLimit)
    (hstatus : (adviceResponse estimator request).status ≠ 200) :
    ∃ refusal, Transfer.format.parse request.body = .error refusal ∧
      adviceResponse estimator request = jsonResponse (Rejection.unreadable refusal).status
        (Rejection.unreadable refusal).toDocument := by
  cases hfront : Transfer.format.parseFront request.body with
  | ok transfer =>
    have htransfer : transferOf request = .ok transfer := by
      rw [transferOf_eq hjson hlength, hfront]
      rfl
    exact absurd (status_adviceResponse.2 ⟨transfer, htransfer⟩) hstatus
  | error refusal =>
    refine ⟨refusal, Json.Record.parse_of_parseFront_eq_error hfront, ?_⟩
    unfold adviceResponse
    rw [transferOf_eq hjson hlength, hfront]
    rfl

/-! ## Admission -/

/-- **Which bodies are answered with advice.** Those that begin with a transfer: the advice is on
that transfer, whatever stands behind it. So the service accepts what a reader of whole bodies
accepts exactly where every transfer that the body begins with has nothing but white space behind
it; and what the service refuses, that reader refuses for the same reason. -/
theorem admits_as_whole_iff (estimator : Estimator) (request : Request)
    (hmethod : request.method = "POST") (hpath : request.path = "/predict-chunk-size")
    (hjson : hasJson request = true) (hlength : request.body.length ≤ bodyLimit) :
    ((respond estimator request).status = 200 ↔
      ∃ front back transfer, request.body = front ++ back ∧
        Transfer.format.parse front = .ok transfer) ∧
    (((respond estimator request).status = 200 ↔
        ∃ transfer, Transfer.format.parse request.body = .ok transfer) ↔
      ∀ front back transfer, request.body = front ++ back →
        Transfer.format.parse front = .ok transfer → ∀ b ∈ back, Json.isBlank b = true) ∧
    (∀ front back transfer, request.body = front ++ back →
      Transfer.format.parse front = .ok transfer →
        respond estimator request = jsonResponse 200 (estimator.advise transfer).toDocument) ∧
    ((respond estimator request).status ≠ 200 →
      ∃ refusal, Transfer.format.parse request.body = .error refusal ∧
        respond estimator request = jsonResponse (Rejection.unreadable refusal).status
          (Rejection.unreadable refusal).toDocument) := by
  have hlocal := Transfer.format_isLocal
  rw [respond_advice hmethod hpath]
  have hstatus : (adviceResponse estimator request).status = 200 ↔
      ∃ front back transfer, request.body = front ++ back ∧
        Transfer.format.parse front = .ok transfer :=
    status_adviceResponse_iff hjson hlength
  refine ⟨hstatus, ?_, ?_, adviceResponse_of_status_ne hjson hlength⟩
  · constructor
    · intro hiff front back transfer hbody hfront
      -- that front alone has the service answer, so the whole body is read as well
      obtain ⟨whole, hwhole⟩ := hiff.1 (hstatus.2 ⟨front, back, transfer, hbody, hfront⟩)
      rw [hbody, Json.Record.parse_append_eq_ok_iff hlocal hfront] at hwhole
      exact hwhole.2
    · intro hblank
      rw [hstatus]
      constructor
      · rintro ⟨front, back, transfer, hbody, hfront⟩
        refine ⟨transfer, ?_⟩
        rw [hbody, Json.Record.parse_append_eq_ok_iff hlocal hfront]
        exact ⟨rfl, hblank front back transfer hbody hfront⟩
      · rintro ⟨transfer, hwhole⟩
        exact ⟨request.body, [], transfer, (List.append_nil _).symm, hwhole⟩
  · intro front back transfer hbody hfront
    exact adviceResponse_of_ok
      ((transferOf_eq_ok_iff hjson hlength).2 ⟨front, back, hbody, hfront⟩)

/-- A list of one field with white space around it is a body that both accept. -/
theorem admits_list_of_size :
    let request : Request := ⟨"POST", "/predict-chunk-size",
      [("content-type", Utf8.ofString "application/json")], Utf8.ofString " [1] \n"⟩
    (respond Rules.standard.estimator request).status = 200 ∧
      Transfer.format.parse request.body = .ok ⟨1, none, none, none⟩ := by
  intro request
  have hpath : request.path = "/predict-chunk-size" := by decide +kernel
  have hjson : hasJson request = true := by decide +kernel
  have hlength : request.body.length ≤ bodyLimit := by decide +kernel
  have hwhole : Transfer.format.parse request.body = .ok ⟨1, none, none, none⟩ := by
    decide +kernel
  obtain ⟨hstatus, -⟩ :=
    admits_as_whole_iff Rules.standard.estimator request rfl hpath hjson hlength
  exact ⟨hstatus.2 ⟨request.body, [], _, (List.append_nil _).symm, hwhole⟩, hwhole⟩

/-- A letter behind the brace: the service answers with advice, a reader of the whole body refuses
it at the letter. -/
theorem admits_trailing_letter :
    let request : Request := ⟨"POST", "/predict-chunk-size",
      [("content-type", Utf8.ofString "application/json")],
      Utf8.ofString "\x7b\"size_bytes\":1\x7dx"⟩
    (respond Rules.standard.estimator request).status = 200 ∧
      Transfer.format.parse request.body = .error ⟨.trailingCharacters, 1, 17, none⟩ := by
  decide +kernel

end Service

end ChunkSizing
