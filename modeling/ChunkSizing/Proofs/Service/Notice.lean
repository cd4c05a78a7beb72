import ChunkSizing.Proofs.Json.Document
import ChunkSizing.Proofs.Json.Lists
import ChunkSizing.Proofs.Service.Decision

/-!
# ChunkSizing.Proofs.Service.Notice — what a rejection says, and what is read of it.

The body of a rejection is a notice: an object with one member, `error`, and its text. Rejections
quote the request, whose keys can be any text at all, so the text is read here by a reader for
notices, and is the message as it was before it was written (`isNotice_document`).
-/

namespace ChunkSizing

open Json Http

/-! ## Reading notices -/

namespace Notice

/-- The text of a notice that is being read. -/
def errorKnown : Known (Option String) :=
  .of "error" textValue_recognizes textValue_leaves id (fun _ text => some text) fun _ _ => rfl

/-- **The record of a notice**, whose text must be there. -/
def format : Record (Option String) String where
  title := "Notice"
  fields := [errorKnown.field]
  blank := none
  finish
    | some text => .ok text
    | none => .error "error"

/-- **The grammar of a notice.** -/
def grammar : format.Grammar where
  fields := [errorKnown]
  fields_eq := rfl
  nodup := List.nodup_singleton _
  blank := List.forall_mem_singleton.2 rfl
  apart := by
    intro known hmem other hother hne
    rw [List.mem_singleton.1 hmem, List.mem_singleton.1 hother] at hne
    exact absurd rfl hne
  ext h := h errorKnown List.mem_cons_self

/-- **A notice is read** from the entry of its text. -/
theorem parse_of_entry {body text : List UInt8} {message : String}
    (hbody : RecordText ["error"] body [("error", text)]) (htext : DenotesText text message) :
    format.parse body = .ok message := by
  refine grammar.parse_eq_ok_iff.2 ⟨[("error", text)], some message, ?_, ?_, rfl⟩
  · have hinput : InputText ["error"] ([] ++ (body ++ [])) [("error", text)] :=
      .mk .nil hbody .nil
    rwa [List.nil_append, List.append_nil] at hinput
  · have hmem : errorKnown ∈ grammar.fields := List.mem_cons_self
    exact (grammar.fills_known_iff hmem).2 ⟨rfl, message, htext, .nil _⟩

end Notice

/-- **A notice of a message.** It is an object with one member, whose string says the message; it is
a JSON value, and a reader for notices takes the message from it. -/
structure IsNotice (body : List UInt8) (message : String) : Prop where
  isValue : IsValue body
  single : ∃ text, body = Utf8.ofString "\x7b\"error\":" ++ (text ++ [ascii '\x7d']) ∧
    RecordText ["error"] body [("error", text)] ∧ DenotesText text message
  read : Notice.format.parse body = .ok message

/-- The document of one text under the key of a notice, whatever the text is. -/
theorem isNotice_document (message : String) : IsNotice
    (Utf8.encode ((Document.record [("error", .text message)]).chars .compact)) message := by
  have hbody := recordText_chars ["error"] .compact [("error", .text message)]
  have htext := denotesText_chars message
  refine ⟨isValue_chars .compact _, ⟨_, ?_, hbody, htext⟩, Notice.parse_of_entry hbody htext⟩
  have hopening : '\x7b' :: Spacing.compact.line 1 ++ quote "error".toList ++
      Spacing.compact.colon = "\x7b\"error\":".toList := by decide
  rw [chars_single, hopening, List.append_assoc, List.append_assoc, Utf8.encode_append,
    Utf8.encode_append]
  rfl

/-! ## Rejections -/

namespace Service

variable {estimator : Estimator} {request : Request}

/-- A request for advice that gets none is rejected. -/
theorem exists_rejection (hasks : AsksAdvice request)
    (hstatus : (respond estimator request).status ≠ 200) :
    ∃ rejection, transferOf request = .error rejection := by
  rw [respond_advice hasks.2 hasks.1, Ne, status_adviceResponse] at hstatus
  cases htransfer : transferOf request with
  | ok transfer => exact absurd ⟨transfer, htransfer⟩ hstatus
  | error rejection => exact ⟨rejection, rfl⟩

/-- **Every rejection says why.** A request for advice that is not answered with status 200,
whatever its media type and its body, is answered with a notice of the rejection's wording, and with
nothing else. -/
theorem respond_rejected (estimator : Estimator) (request : Request) (hasks : AsksAdvice request)
    (hstatus : (respond estimator request).status ≠ 200) :
    ∃ rejection, transferOf request = .error rejection ∧
      (respond estimator request).status = rejection.status ∧
      (respond estimator request).contentType = some "application/json" ∧
      IsNotice (respond estimator request).body ("invalid request: " ++ rejection.message) := by
  obtain ⟨rejection, hrejection⟩ := exists_rejection hasks hstatus
  rw [respond_of_rejection hasks hrejection]
  exact ⟨rejection, hrejection, rfl, rfl, isNotice_document _⟩

/-- A text in the place of a size, and a key without a whole value. The one is quoted with escapes
of its own, the other as it is; both are read back. -/
theorem respond_rejected_quoting :
    let headers := [("content-type", Utf8.ofString "application/json")]
    let request (body : String) : Request :=
      ⟨"POST", "/predict-chunk-size", headers, Utf8.ofString body⟩
    let misplaced := request "\x7b\"size_bytes\":\"\\\"\\\\\\u0001é\"\x7d"
    let unfinished := request "\x7b\"\\\"\\\\\\u0001é\":nul"
    IsNotice (respond (.constant 8) misplaced).body
      ("invalid request: " ++ ("Failed to deserialize the JSON body into the target type: " ++
        "size_bytes: invalid type: string \"\\\"\\\\\\u\x7b1\x7dé\", expected i64 " ++
          "at line 1 column 28")) ∧
    IsNotice (respond (.constant 8) unfinished).body
      ("invalid request: " ++ ("Failed to parse the request body as JSON: " ++
        "\"\\\x01é: EOF while parsing a value at line 1 column 19")) := by
  intro headers request misplaced unfinished
  have hsays {body : String} {rejection : Rejection}
      (hrejected : transferOf (request body) = .error rejection) :
      IsNotice (respond (.constant 8) (request body)).body
        ("invalid request: " ++ rejection.message) := by
    have hpath : (request "").path = "/predict-chunk-size" := by decide +kernel
    have hasks : AsksAdvice (request body) := ⟨hpath, rfl⟩
    have hstatus : (respond (.constant 8) (request body)).status ≠ 200 := by
      rw [respond_of_rejection hasks hrejected]
      exact status_ne rejection
    obtain ⟨found, hfound, -, -, hnotice⟩ := respond_rejected _ _ hasks hstatus
    obtain rfl := Except.error.inj (hrejected.symm.trans hfound)
    exact hnotice
  constructor
  · let refusal : Refusal :=
      ⟨.wrongKind (.text "\"\\\x01é") .integer, 1, 28, some (.member "size_bytes")⟩
    have hrejected : transferOf misplaced = .error (.unreadable refusal) := by decide +kernel
    have hmessage : (Rejection.unreadable refusal).message =
        "Failed to deserialize the JSON body into the target type: " ++
          "size_bytes: invalid type: string \"\\\"\\\\\\u\x7b1\x7dé\", expected i64 " ++
            "at line 1 column 28" := by decide +kernel
    rw [← hmessage]
    exact hsays hrejected
  · let refusal : Refusal := ⟨.ended .value, 1, 19, some (.member "\"\\\x01é")⟩
    have hrejected : transferOf unfinished = .error (.unreadable refusal) := by decide +kernel
    have hmessage : (Rejection.unreadable refusal).message =
        "Failed to parse the request body as JSON: " ++
          "\"\\\x01é: EOF while parsing a value at line 1 column 19" := by decide +kernel
    rw [← hmessage]
    exact hsays hrejected

end Service

end ChunkSizing
