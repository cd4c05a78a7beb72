import ChunkSizing.Proofs.Remote.Usable
import ChunkSizing.Proofs.Service.Delivery

/-!
# ChunkSizing.Proofs.Remote.Reception — what a caller makes of a response.

A response passes three stages: its status, its body, and the value in it. Each stage that fails is
the fault that is reported, and the stages behind it are not looked at (`Remote.receive_cases`). A
body that is read always holds a finite number, so the last stage refuses nothing but numbers that
are not positive; an answer without a number is refused one stage earlier.
-/

namespace ChunkSizing

open Binary64 Http

/-! ## The value -/

/-- Finite numbers that are not above zero are at most zero. -/
theorem Binary64.not_le_zero_iff {x : Binary64} (h : x.isFinite = true) : ¬ x ≤ 0 ↔ 0 < x := by
  obtain ⟨negative, rank, -, rfl⟩ := exists_of_isFinite h
  rw [zero_eq]
  show ¬ decide (_ ≤ _) = true ↔ decide (_ < _) = true
  rw [decide_eq_true_eq, decide_eq_true_eq, Int.not_le]

theorem Advice.check_of_pos {advice : Advice} (hfinite : advice.chunkSize.isFinite = true)
    (hpos : 0 < advice.chunkSize) : advice.check = .ok () :=
  if_pos ⟨hfinite, (not_le_zero_iff hfinite).2 hpos⟩

theorem Advice.check_of_le_zero {advice : Advice} (hle : advice.chunkSize ≤ 0) :
    advice.check = .error ⟨advice.chunkSize⟩ :=
  if_neg fun hpositive => hpositive.2 hle

/-- Advice that was read is finite. -/
theorem Advice.isFinite_of_parse {input : List UInt8} {advice : Advice}
    (h : Advice.format.parse input = .ok advice) : advice.chunkSize.isFinite = true := by
  obtain ⟨_, -, hdenotes⟩ := parse_iff_denotes.1 h
  exact hdenotes.isFinite

/-! ## The three stages -/

theorem Http.Status.isSuccess_iff {status : Nat} :
    Status.isSuccess status = true ↔ 200 ≤ status ∧ status ≤ 299 := by
  unfold Status.isSuccess
  rw [Bool.and_eq_true, decide_eq_true_eq, decide_eq_true_eq]

namespace Remote

variable {response : Response} {advice : Advice}

theorem receive_of_status (h : ¬ (200 ≤ response.status ∧ response.status ≤ 299)) :
    receive response = .error (.badStatus response.status) := by
  have hsuccess := Bool.eq_false_iff.2 (mt Status.isSuccess_iff.1 h)
  unfold receive
  rw [hsuccess]
  rfl

theorem receive_of_parse_error {refusal : Json.Refusal}
    (hstatus : 200 ≤ response.status ∧ response.status ≤ 299)
    (hparse : Advice.format.parse response.body = .error refusal) :
    receive response = .error (.unreadable refusal) := by
  unfold receive
  rw [Status.isSuccess_iff.2 hstatus, hparse]
  rfl

theorem receive_of_pos (hstatus : 200 ≤ response.status ∧ response.status ≤ 299)
    (hparse : Advice.format.parse response.body = .ok advice) (hpos : 0 < advice.chunkSize) :
    receive response = .ok advice := by
  have hcheck := Advice.check_of_pos (Advice.isFinite_of_parse hparse) hpos
  unfold receive
  simp only [Status.isSuccess_iff.2 hstatus, Bool.not_true, Bool.false_eq_true, if_false, hparse,
    hcheck]

theorem receive_of_le_zero (hstatus : 200 ≤ response.status ∧ response.status ≤ 299)
    (hparse : Advice.format.parse response.body = .ok advice) (hle : advice.chunkSize ≤ 0) :
    receive response = .error (.unusable ⟨advice.chunkSize⟩) := by
  have hcheck := Advice.check_of_le_zero hle
  unfold receive
  simp only [Status.isSuccess_iff.2 hstatus, Bool.not_true, Bool.false_eq_true, if_false, hparse,
    hcheck]

/-- **Where a response ends up**: it fails at the first stage that it does not pass, or it passes
all three. -/
theorem receive_cases (response : Response) :
    let success := 200 ≤ response.status ∧ response.status ≤ 299
    let body := Advice.format.parse response.body
    (¬ success ∧ receive response = .error (.badStatus response.status)) ∨
    (success ∧ ∃ refusal, body = .error refusal ∧
      receive response = .error (.unreadable refusal)) ∨
    (success ∧ ∃ advice, body = .ok advice ∧ advice.chunkSize ≤ 0 ∧
      receive response = .error (.unusable ⟨advice.chunkSize⟩)) ∨
    (success ∧ ∃ advice, body = .ok advice ∧ 0 < advice.chunkSize ∧
      receive response = .ok advice) := by
  intro success body
  by_cases hstatus : success
  · cases hbody : body with
    | error refusal =>
      exact .inr (.inl ⟨hstatus, refusal, rfl, receive_of_parse_error hstatus hbody⟩)
    | ok advice =>
      by_cases hle : advice.chunkSize ≤ 0
      · exact .inr (.inr (.inl ⟨hstatus, advice, rfl, hle, receive_of_le_zero hstatus hbody hle⟩))
      · have hpos := (not_le_zero_iff (Advice.isFinite_of_parse hbody)).1 hle
        exact .inr (.inr (.inr ⟨hstatus, advice, rfl, hpos, receive_of_pos hstatus hbody hpos⟩))
  · exact .inl ⟨hstatus, receive_of_status hstatus⟩

/-! ## One outcome for each stage -/

theorem receive_eq_ok_iff : receive response = .ok advice ↔
    (200 ≤ response.status ∧ response.status ≤ 299) ∧
      Advice.format.parse response.body = .ok advice ∧ 0 < advice.chunkSize := by
  constructor
  · intro h
    obtain ⟨-, heq⟩ | ⟨-, _, -, heq⟩ | ⟨-, _, -, -, heq⟩ | ⟨hstatus, _, hparse, hpos, heq⟩ :=
      receive_cases response <;> rw [h] at heq <;> cases heq
    exact ⟨hstatus, hparse, hpos⟩
  · rintro ⟨hstatus, hparse, hpos⟩
    exact receive_of_pos hstatus hparse hpos

theorem receive_eq_badStatus_iff {status : Nat} : receive response = .error (.badStatus status) ↔
    ¬ (200 ≤ response.status ∧ response.status ≤ 299) ∧ response.status = status := by
  constructor
  · intro h
    obtain ⟨hstatus, heq⟩ | ⟨-, _, -, heq⟩ | ⟨-, _, -, -, heq⟩ | ⟨-, _, -, -, heq⟩ :=
      receive_cases response <;> rw [h] at heq <;> cases heq
    exact ⟨hstatus, rfl⟩
  · rintro ⟨hstatus, rfl⟩
    exact receive_of_status hstatus

theorem receive_eq_unreadable_iff {refusal : Json.Refusal} :
    receive response = .error (.unreadable refusal) ↔
      (200 ≤ response.status ∧ response.status ≤ 299) ∧
        Advice.format.parse response.body = .error refusal := by
  constructor
  · intro h
    obtain ⟨-, heq⟩ | ⟨hstatus, _, hparse, heq⟩ | ⟨-, _, -, -, heq⟩ | ⟨-, _, -, -, heq⟩ :=
      receive_cases response <;> rw [h] at heq <;> cases heq
    exact ⟨hstatus, hparse⟩
  · rintro ⟨hstatus, hparse⟩
    exact receive_of_parse_error hstatus hparse

theorem receive_eq_unusable_iff {unusable : UnusableAdvice} :
    receive response = .error (.unusable unusable) ↔
      (200 ≤ response.status ∧ response.status ≤ 299) ∧
        ∃ advice, Advice.format.parse response.body = .ok advice ∧ advice.chunkSize ≤ 0 ∧
          unusable = ⟨advice.chunkSize⟩ := by
  constructor
  · intro h
    obtain ⟨-, heq⟩ | ⟨-, _, -, heq⟩ | ⟨hstatus, advice, hparse, hle, heq⟩ | ⟨-, _, -, -, heq⟩ :=
      receive_cases response <;> rw [h] at heq <;> cases heq
    exact ⟨hstatus, advice, hparse, hle, rfl⟩
  · rintro ⟨hstatus, advice, hparse, hle, rfl⟩
    exact receive_of_le_zero hstatus hparse hle

/-- A response is never taken for a request that was not sent. -/
theorem receive_ne_unsent (response : Response) (endpoint : String) :
    receive response ≠ .error (.unsent endpoint) := by
  intro h
  obtain ⟨-, heq⟩ | ⟨-, _, -, heq⟩ | ⟨-, _, -, -, heq⟩ | ⟨-, _, -, -, heq⟩ :=
    receive_cases response <;> rw [h] at heq <;> cases heq

/-! ## Asking -/

variable {remote : Remote} {transport : Transport} {transfer : Transfer}

theorem advise_of_response (h : transport (remote.request transfer) = some response) :
    remote.advise transport transfer = receive response := by
  unfold advise
  rw [h]

theorem adviseBytes_eq_ok_iff {bytes : UInt64} :
    remote.adviseBytes transport transfer = .ok bytes ↔
      ∃ advice, remote.advise transport transfer = .ok advice ∧
        chunkBytes advice.chunkSize = bytes :=
  Json.map_eq_ok_iff

theorem adviseBytes_eq_error_iff {fault : Fault} :
    remote.adviseBytes transport transfer = .error fault ↔
      remote.advise transport transfer = .error fault := by
  unfold adviseBytes
  cases remote.advise transport transfer with
  | ok advice => exact iff_of_false nofun nofun
  | error found => simp only [Except.map, Except.error.injEq]

/-! ## Answers without a number -/

/-- **A number that is not finite is written as `null`**, which no reader of advice takes. -/
theorem parse_of_not_isFinite {advice : Advice} (h : advice.chunkSize.isFinite = false) :
    Advice.format.parse (Utf8.encode (advice.toDocument.chars .compact)) =
      .error ⟨.wrongKind .null .number, 1, 21, some (.member "chunk_size_mb")⟩ := by
  have hnull : (Json.Atom.number advice.chunkSize).chars = ['n', 'u', 'l', 'l'] := by
    rw [Json.Atom.chars, h]
    rfl
  have hchars : advice.toDocument.chars .compact = "\x7b\"chunk_size_mb\":null\x7d".toList := by
    rw [Advice.toDocument, Json.chars_single, hnull]
    decide
  rw [hchars]
  decide +kernel

theorem receive_of_not_isFinite {advice : Advice} (h : advice.chunkSize.isFinite = false) :
    receive (Service.jsonResponse 200 advice.toDocument) =
      .error (.unreadable ⟨.wrongKind .null .number, 1, 21, some (.member "chunk_size_mb")⟩) :=
  receive_of_parse_error (show 200 ≤ 200 ∧ 200 ≤ 299 by decide) (parse_of_not_isFinite h)

/-! ## The outcome -/

/-- **What a caller makes of a response.** It is advice exactly if the status reports success, the
whole body denotes advice and the chunk size is positive. Otherwise the fault is that of the first
of these that fails: the status whatever the body is, the body whatever could be made of it, the
value. The advice in bytes is there, or fails, as the advice is. What a body denotes is finite, so
only numbers up to zero are unusable; and where an estimator gave no finite number, its service's
answer cannot be read. -/
theorem advise_decided (remote : Remote) (transport : Transport) (transfer : Transfer)
    (response : Response) (hresponse : transport (remote.request transfer) = some response) :
    let outcome := remote.advise transport transfer
    let success := 200 ≤ response.status ∧ response.status ≤ 299
    let denoted (advice : Advice) := ∃ entries,
      Json.InputText Advice.names response.body entries ∧ Advice.Denotes entries advice
    (∀ advice, outcome = .ok advice ↔ success ∧ denoted advice ∧ 0 < advice.chunkSize) ∧
    (∀ status, outcome = .error (.badStatus status) ↔ ¬ success ∧ response.status = status) ∧
    ((∃ refusal, outcome = .error (.unreadable refusal)) ↔
      success ∧ ∀ advice, ¬ denoted advice) ∧
    (∀ refusal, outcome = .error (.unreadable refusal) →
      Advice.format.parse response.body = .error refusal) ∧
    (∀ unusable, outcome = .error (.unusable unusable) ↔
      success ∧ ∃ advice, denoted advice ∧ advice.chunkSize ≤ 0 ∧
        unusable = ⟨advice.chunkSize⟩) ∧
    (∀ endpoint, outcome ≠ .error (.unsent endpoint)) ∧
    (∀ bytes, remote.adviseBytes transport transfer = .ok bytes ↔
      ∃ advice, outcome = .ok advice ∧ chunkBytes advice.chunkSize = bytes) ∧
    (∀ fault, remote.adviseBytes transport transfer = .error fault ↔ outcome = .error fault) ∧
    (∀ advice, denoted advice → advice.chunkSize.isFinite = true) ∧
    ∀ (estimator : Estimator) (request : Request) (asked : Transfer),
      request.method = "POST" → request.path = "/predict-chunk-size" →
      Service.transferOf request = .ok asked →
      (estimator.advise asked).chunkSize.isFinite = false →
      response = Service.respond estimator request →
        outcome = .error (.unreadable
          ⟨.wrongKind .null .number, 1, 21, some (.member "chunk_size_mb")⟩) := by
  intro outcome success denoted
  have houtcome : outcome = receive response := advise_of_response hresponse
  have hdenoted {advice : Advice} :
      Advice.format.parse response.body = .ok advice ↔ denoted advice :=
    Advice.parse_iff_denotes
  have hrefused : (∃ refusal, Advice.format.parse response.body = .error refusal) ↔
      ∀ advice, ¬ denoted advice := by
    simp only [← hdenoted]
    cases Advice.format.parse response.body with
    | ok advice => exact iff_of_false nofun fun hnone => hnone advice rfl
    | error refusal => exact iff_of_true ⟨refusal, rfl⟩ nofun
  refine ⟨?_, ?_, ?_, ?_, ?_, ?_, fun bytes => adviseBytes_eq_ok_iff,
    fun fault => adviseBytes_eq_error_iff, ?_, ?_⟩
  · intro advice
    rw [houtcome, receive_eq_ok_iff, hdenoted]
  · intro status
    rw [houtcome, receive_eq_badStatus_iff]
  · simp only [houtcome, receive_eq_unreadable_iff, exists_and_left, hrefused]
    exact Iff.rfl
  · intro refusal hunreadable
    rw [houtcome, receive_eq_unreadable_iff] at hunreadable
    exact hunreadable.2
  · intro unusable
    simp only [houtcome, receive_eq_unusable_iff, hdenoted]
    exact Iff.rfl
  · intro endpoint
    rw [houtcome]
    exact receive_ne_unsent response endpoint
  · intro advice hadvice
    exact Advice.isFinite_of_parse (hdenoted.2 hadvice)
  · intro estimator request asked hmethod hpath hasked hinfinite hanswer
    rw [houtcome, hanswer, Service.respond_advice hmethod hpath,
      Service.adviceResponse_of_ok hasked]
    exact receive_of_not_isFinite hinfinite

/-- Advice on a page that is not there counts for nothing, and an estimator that gives no number
leaves nothing to read. -/
theorem advise_decided_at_404 :
    let remote := Remote.ofBaseUrl "http://localhost:8080"
    let transfer : Transfer := ⟨1, none, none, none⟩
    let missing : Response := ⟨404, none, none, Utf8.ofString "\x7b\"chunk_size_mb\":8.0\x7d"⟩
    let request : Request := ⟨"POST", "/predict-chunk-size",
      [("content-type", Utf8.ofString "application/json")], Utf8.ofString "[1]"⟩
    Advice.format.parse missing.body = .ok ⟨8⟩ ∧
    remote.advise (fun _ => some missing) transfer = .error (.badStatus 404) ∧
    remote.advise (fun _ => some (Service.respond (Estimator.constant .nan) request)) transfer =
      .error (.unreadable ⟨.wrongKind .null .number, 1, 21, some (.member "chunk_size_mb")⟩) := by
  intro remote transfer missing request
  have hstatus : ¬ (200 ≤ missing.status ∧ missing.status ≤ 299) := by decide
  have hpath : request.path = "/predict-chunk-size" := by decide +kernel
  have hasked : Service.transferOf request = .ok ⟨1, none, none, none⟩ := by decide +kernel
  obtain ⟨-, hbadStatus, -⟩ := advise_decided remote (fun _ => some missing) transfer missing rfl
  obtain ⟨-, -, -, -, -, -, -, -, -, hunreadable⟩ := advise_decided remote
    (fun _ => some (Service.respond (Estimator.constant .nan) request)) transfer _ rfl
  exact ⟨by decide +kernel, (hbadStatus 404).2 ⟨hstatus, rfl⟩,
    hunreadable (Estimator.constant .nan) request _ rfl hpath hasked rfl rfl⟩

end Remote

end ChunkSizing
