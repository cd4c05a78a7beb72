import ChunkSizing.Proofs.Service.Admission
import ChunkSizing.Proofs.Transfer.Prompt

/-!
# ChunkSizing.Proofs.Service.Decision — which status a request is answered with.

`Decision` says for every request and every status whether the request is answered with it. It does
not mention the estimator: that has a say in the body of advice only (`Service.respond_decided`).
-/

namespace ChunkSizing.Service

open Http

variable {estimator : Estimator} {request : Request} {status : Nat}

/-! ## The decision -/

/-- The request is one for advice. -/
def AsksAdvice (request : Request) : Prop :=
  request.path = "/predict-chunk-size" ∧ request.method = "POST"

/-- A request for advice that is fit to be read: its media type is JSON and its body is no longer
than 2 MiB. -/
structure IsReadable (request : Request) : Prop where
  asks : AsksAdvice request
  json : hasJson request = true
  length_le : request.body.length ≤ 2097152

/-- The body begins with the text of a transfer. -/
def Offers (request : Request) (transfer : Transfer) : Prop :=
  ∃ front back entries, request.body = front ++ back ∧
    Json.InputText Transfer.names front entries ∧ Transfer.Denotes entries transfer

/-- Reading the body stops at a fault of a category. -/
def Stops (request : Request) (category : Json.Category) : Prop :=
  ∃ refusal, Transfer.format.parseFront request.body = .error refusal ∧
    refusal.cause.category = category

/-- **The status of a request.** The path comes first, then the method, then for advice the media
type, the length, and what the body is read as. -/
inductive Decision (request : Request) : Nat → Prop where
  | notFound (hhealth : request.path ≠ "/health") (hadvice : request.path ≠ "/predict-chunk-size") :
      Decision request 404
  | notHealthMethod (hpath : request.path = "/health") (hget : request.method ≠ "GET")
      (hhead : request.method ≠ "HEAD") : Decision request 405
  | healthy (hpath : request.path = "/health")
      (hmethod : request.method = "GET" ∨ request.method = "HEAD") : Decision request 200
  | notAdviceMethod (hpath : request.path = "/predict-chunk-size")
      (hpost : request.method ≠ "POST") : Decision request 405
  | notJson (hasks : AsksAdvice request) (hjson : hasJson request = false) : Decision request 415
  | tooLong (hasks : AsksAdvice request) (hjson : hasJson request = true)
      (hlength : 2097152 < request.body.length) : Decision request 413
  | ofData (hreadable : IsReadable request) (hstops : Stops request .data) : Decision request 422
  | ofForm (hreadable : IsReadable request)
      (hstops : Stops request .syntactic ∨ Stops request .eof) : Decision request 400
  | advised {transfer : Transfer} (hreadable : IsReadable request)
      (hoffers : Offers request transfer) : Decision request 200

/-! ## Responses -/

theorem offers_iff {transfer : Transfer} :
    Offers request transfer ↔ Transfer.format.parseFront request.body = .ok transfer := by
  unfold Offers
  rw [Json.Record.parseFront_eq_ok_iff Transfer.format_isLocal]
  simp only [Transfer.parse_iff_denotes, exists_and_left]

theorem respond_of_not_found (hhealth : request.path ≠ "/health")
    (hadvice : request.path ≠ "/predict-chunk-size") :
    respond estimator request = emptyResponse 404 none := by
  unfold respond Route.of?
  rw [if_neg hhealth, if_neg hadvice]

theorem respond_of_method {route : Route} (hroute : Route.of? request.path = some route)
    (hmethod : request.method ∉ route.methods) :
    respond estimator request =
      emptyResponse 405 (some (String.intercalate "," route.methods)) := by
  unfold respond
  simp only [hroute, if_pos hmethod]

theorem respond_health (hpath : request.path = "/health")
    (hmethod : request.method = "GET" ∨ request.method = "HEAD") :
    respond estimator request = healthResponse request := by
  have hroute : Route.of? request.path = some .health := if_pos hpath
  have hmember : request.method ∈ Route.health.methods :=
    List.mem_cons.2 (hmethod.imp_right List.mem_singleton.2)
  unfold respond
  simp only [hroute, not_not.2 hmember, if_false]

theorem respond_of_rejection (hasks : AsksAdvice request) {rejection : Rejection}
    (h : transferOf request = .error rejection) :
    respond estimator request = jsonResponse rejection.status rejection.toDocument := by
  rw [respond_advice hasks.2 hasks.1]
  unfold adviceResponse
  rw [h]

theorem respond_of_refusal (h : IsReadable request) {refusal : Json.Refusal}
    (hrefused : Transfer.format.parseFront request.body = .error refusal) :
    respond estimator request = jsonResponse (Rejection.unreadable refusal).status
      (Rejection.unreadable refusal).toDocument := by
  apply respond_of_rejection h.asks
  rw [transferOf_eq h.json h.length_le, hrefused]
  rfl

theorem respond_of_offer (h : IsReadable request) {transfer : Transfer}
    (hoffers : Offers request transfer) :
    respond estimator request = jsonResponse 200 (estimator.advise transfer).toDocument := by
  rw [respond_advice h.asks.2 h.asks.1]
  apply adviceResponse_of_ok
  rw [transferOf_eq h.json h.length_le, offers_iff.1 hoffers]
  rfl

/-! ## One status for each request -/

/-- **The decision is followed**, so no request has two. -/
theorem Decision.status_respond (h : Decision request status) (estimator : Estimator) :
    (respond estimator request).status = status := by
  cases h with
  | notFound hhealth hadvice =>
    rw [respond_of_not_found hhealth hadvice]
    rfl
  | notHealthMethod hpath hget hhead =>
    have hmethod : request.method ∉ Route.health.methods := by
      simp [Route.methods, hget, hhead]
    rw [respond_of_method (if_pos hpath) hmethod]
    rfl
  | healthy hpath hmethod =>
    rw [respond_health hpath hmethod]
    rfl
  | notAdviceMethod hpath hpost =>
    have hroute : Route.of? request.path = some .advice := by
      rw [hpath]
      rfl
    rw [respond_of_method hroute (mt List.mem_singleton.1 hpost)]
    rfl
  | notJson hasks hjson =>
    have hrejected : transferOf request = .error .notJson := by
      unfold transferOf
      rw [hjson]
      rfl
    rw [respond_of_rejection hasks hrejected]
    rfl
  | tooLong hasks hjson hlength =>
    have hrejected : transferOf request = .error .bodyTooLong := by
      unfold transferOf
      rw [hjson]
      exact if_pos hlength
    rw [respond_of_rejection hasks hrejected]
    rfl
  | ofData hreadable hstops =>
    obtain ⟨refusal, hrefused, hcategory⟩ := hstops
    rw [respond_of_refusal hreadable hrefused]
    exact if_pos hcategory
  | ofForm hreadable hstops =>
    obtain ⟨refusal, hrefused, hcategory⟩ | ⟨refusal, hrefused, hcategory⟩ := hstops
    all_goals
      rw [respond_of_refusal hreadable hrefused]
      refine if_neg ?_
      rw [hcategory]
      exact nofun
  | advised hreadable hoffers =>
    rw [respond_of_offer hreadable hoffers]
    rfl

theorem IsReadable.exists_decision (h : IsReadable request) :
    ∃ status, Decision request status := by
  cases hread : Transfer.format.parseFront request.body with
  | ok transfer => exact ⟨200, .advised h (offers_iff.2 hread)⟩
  | error refusal =>
    cases hcategory : refusal.cause.category with
    | data => exact ⟨422, .ofData h ⟨refusal, hread, hcategory⟩⟩
    | syntactic => exact ⟨400, .ofForm h (.inl ⟨refusal, hread, hcategory⟩)⟩
    | eof => exact ⟨400, .ofForm h (.inr ⟨refusal, hread, hcategory⟩)⟩

/-- **Every request is decided.** -/
theorem exists_decision (request : Request) : ∃ status, Decision request status := by
  by_cases hhealth : request.path = "/health"
  · by_cases hmethod : request.method = "GET" ∨ request.method = "HEAD"
    · exact ⟨200, .healthy hhealth hmethod⟩
    · rw [not_or] at hmethod
      exact ⟨405, .notHealthMethod hhealth hmethod.1 hmethod.2⟩
  by_cases hadvice : request.path = "/predict-chunk-size"
  · by_cases hpost : request.method = "POST"
    · cases hjson : hasJson request with
      | false => exact ⟨415, .notJson ⟨hadvice, hpost⟩ hjson⟩
      | true =>
        rcases Nat.lt_or_ge 2097152 request.body.length with hlength | hlength
        · exact ⟨413, .tooLong ⟨hadvice, hpost⟩ hjson hlength⟩
        · exact IsReadable.exists_decision ⟨⟨hadvice, hpost⟩, hjson, hlength⟩
    · exact ⟨405, .notAdviceMethod hadvice hpost⟩
  · exact ⟨404, .notFound hhealth hadvice⟩

theorem status_respond_iff (estimator : Estimator) (request : Request) (status : Nat) :
    (respond estimator request).status = status ↔ Decision request status := by
  constructor
  · rintro rfl
    obtain ⟨decided, hdecision⟩ := exists_decision request
    rwa [hdecision.status_respond estimator]
  · exact fun hdecision => hdecision.status_respond estimator

/-! ## What does not matter -/

theorem asksAdvice_of_route (hroute : Route.of? request.path = some .advice)
    (hmethod : request.method ∈ Route.advice.methods) : AsksAdvice request := by
  refine ⟨?_, List.mem_singleton.1 hmethod⟩
  unfold Route.of? at hroute
  split_ifs at hroute with hhealth hadvice
  · cases hroute
  · exact hadvice

/-- **The estimator** has a say in advice that is given, and in nothing else. -/
theorem advised_or_respond_eq (estimator other : Estimator) (request : Request) :
    (AsksAdvice request ∧ (respond estimator request).status = 200) ∨
      respond other request = respond estimator request := by
  by_cases hasks : AsksAdvice request
  · cases htransfer : transferOf request with
    | ok transfer =>
      refine .inl ⟨hasks, ?_⟩
      rw [respond_advice hasks.2 hasks.1, adviceResponse_of_ok htransfer]
      rfl
    | error rejection =>
      exact .inr ((respond_of_rejection hasks htransfer).trans
        (respond_of_rejection hasks htransfer).symm)
  · right
    cases hroute : Route.of? request.path with
    | none => simp only [respond, hroute]
    | some route =>
      by_cases hmethod : request.method ∈ route.methods
      · cases route with
        | health => simp only [respond, hroute]
        | advice => exact absurd (asksAdvice_of_route hroute hmethod) hasks
      · rw [respond_of_method hroute hmethod, respond_of_method hroute hmethod]

/-- **What stands behind the first fault** of a body has no say. -/
theorem respond_of_first_fault {front back back' : List UInt8} {c : UInt8} {fault : Json.Fault}
    (h : IsReadable request) (h' : IsReadable { request with body := front ++ c :: back' })
    (hbody : request.body = front ++ c :: back)
    (hread : Transfer.format.read request.body = .error fault)
    (hcause : fault.cause ≠ .invalidText) (hunread : fault.unread = back.length + 1) :
    respond estimator { request with body := front ++ c :: back' } = respond estimator request := by
  rw [hbody] at hread
  have hrefused : Transfer.format.parseFront request.body =
      .error (fault.locate (front ++ c :: back)) := by
    rw [hbody, Json.Record.parseFront, hread]
  have hsame :=
    Json.Record.parseFront_congr Transfer.prompt_read hread hcause hunread back'
  rw [respond_of_refusal h hrefused, respond_of_refusal h' (hsame.trans (hbody ▸ hrefused))]

/-- **How a request is decided.** Every request has exactly the status that is decided for it;
whatever is not advice is the same for every estimator. Advice is given on the transfer that the
body begins with. A body without one is refused for its first fault, and stays refused for it
whatever stands behind the byte at which that was met. -/
theorem respond_decided (estimator : Estimator) (request : Request) :
    (∀ status, (respond estimator request).status = status ↔ Decision request status) ∧
    (∀ transfer, IsReadable request → Offers request transfer →
      respond estimator request = jsonResponse 200 (estimator.advise transfer).toDocument) ∧
    (∀ other, (AsksAdvice request ∧ (respond estimator request).status = 200) ∨
      respond other request = respond estimator request) ∧
    ∀ front c back fault, IsReadable request → request.body = front ++ c :: back →
      Transfer.format.read request.body = .error fault → fault.cause ≠ .invalidText →
      fault.unread = back.length + 1 →
      ∀ back', IsReadable { request with body := front ++ c :: back' } →
        respond estimator { request with body := front ++ c :: back' } =
          respond estimator request := by
  refine ⟨status_respond_iff estimator request, ?_, ?_, ?_⟩
  · exact fun transfer hreadable hoffers => respond_of_offer hreadable hoffers
  · exact fun other => advised_or_respond_eq estimator other request
  · intro front c back fault hreadable hbody hread hcause hunread back' hreadable'
    exact respond_of_first_fault hreadable hreadable' hbody hread hcause hunread

/-- A size of the wrong type in front of a comma too many, whatever follows the comma, and the same
the other way round. -/
theorem respond_decided_by_first :
    let headers := [("content-type", Utf8.ofString "application/json")]
    let request (body : List UInt8) : Request := ⟨"POST", "/predict-chunk-size", headers, body⟩
    let front := Utf8.ofString "\x7b\"size_bytes\":true"
    (∀ back : List UInt8, back.length ≤ 2097152 - 19 →
      (respond (.constant 8) (request (front ++ 44 :: back))).status = 422) ∧
    (respond (.constant 8) (request (Utf8.ofString "\x7b,\"size_bytes\":true\x7d"))).status = 400 ∧
    respond (.constant 8) (request (Utf8.ofString "[1]x")) =
      jsonResponse 200 (Advice.toDocument ⟨8⟩) := by
  intro headers request front
  have hasks (body : List UInt8) : AsksAdvice (request body) := by
    refine ⟨?_, rfl⟩
    show (request []).path = "/predict-chunk-size"
    decide +kernel
  have hjson (body : List UInt8) : hasJson (request body) = true := by
    show hasJson (request []) = true
    decide +kernel
  have hreadable {body : List UInt8} (h : body.length ≤ 2097152) : IsReadable (request body) :=
    ⟨hasks body, hjson body, h⟩
  have hfault : Transfer.format.read (front ++ [44]) =
      .error ⟨.wrongKind (.boolean true) .integer, 1, some (.member "size_bytes")⟩ := by
    decide +kernel
  refine ⟨fun back hback => ?_, ?_, ?_⟩
  · obtain ⟨hstatus, -, -, hfirst⟩ := respond_decided (.constant 8) (request (front ++ [44]))
    have hshort : IsReadable (request (front ++ [44])) := hreadable (by decide +kernel)
    have hlong : IsReadable (request (front ++ 44 :: back)) := by
      refine hreadable ?_
      have hfront : front.length = 18 := by decide +kernel
      rw [List.length_append, List.length_cons, hfront]
      omega
    have hsame := hfirst front 44 [] _ hshort rfl hfault nofun rfl back hlong
    have hrefused : Transfer.format.parseFront (front ++ [44]) =
        .error ⟨.wrongKind (.boolean true) .integer, 1, 18, some (.member "size_bytes")⟩ := by
      decide +kernel
    rw [hsame, hstatus]
    exact .ofData hshort ⟨_, hrefused, rfl⟩
  · obtain ⟨hstatus, -⟩ :=
      respond_decided (.constant 8) (request (Utf8.ofString "\x7b,\"size_bytes\":true\x7d"))
    have hrefused : Transfer.format.parseFront (Utf8.ofString "\x7b,\"size_bytes\":true\x7d") =
        .error ⟨.keyNotText, 1, 2, none⟩ := by
      decide +kernel
    exact (hstatus 400).2
      (.ofForm (hreadable (by decide +kernel)) (.inl ⟨_, hrefused, rfl⟩))
  · obtain ⟨-, hadvised, -⟩ := respond_decided (.constant 8) (request (Utf8.ofString "[1]x"))
    have hparse : Transfer.format.parseFront (Utf8.ofString "[1]x") =
        .ok ⟨1, none, none, none⟩ := by
      decide +kernel
    exact hadvised _ (hreadable (by decide +kernel)) (offers_iff.2 hparse)

end ChunkSizing.Service
