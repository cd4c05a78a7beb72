import ChunkSizing.Program
import ChunkSizing.Proofs.Json.Document
import ChunkSizing.Proofs.Settings.Loading

/-!
# ChunkSizing.Proofs.Program.Outcomes — how a run ends.

A run passes the environment, then the arguments, then its command; the first of these that fails
decides the exit code, and a run that fails has printed nothing (`Program.run_outcomes`). What a run
prints is one JSON value and a line feed.
-/

namespace ChunkSizing

/-! ## Printing and failing -/

namespace Outcome

/-- **A run that printed a document**: one JSON value, indented, and a line feed. -/
structure Prints (outcome : Outcome) (document : Json.Document) : Prop where
  exitCode : outcome.exitCode = 0
  stdout : outcome.stdout = document.render .pretty ++ "\n"
  isValue : Json.IsValue (Utf8.ofString (document.render .pretty))

/-- **A run that failed**, and printed nothing. -/
structure Fails (outcome : Outcome) : Prop where
  exitCode : outcome.exitCode = 1
  stdout : outcome.stdout = ""

/-- **A run that carries out what may fail**: either there is a result and it is printed, or there
is none and the run fails. -/
structure Reports {ε α : Type} (outcome : Outcome) (result : Except ε α)
    (document : α → Json.Document) : Prop where
  ends : (∃ value, result = .ok value ∧ outcome.Prints (document value)) ∨
    (∃ fault, result = .error fault) ∧ outcome.Fails
  exitCode : outcome.exitCode = 0 ↔ ∃ value, result = .ok value

theorem prints_printed (document : Json.Document) : (printed document).Prints document :=
  ⟨rfl, rfl, Json.isValue_render .pretty document⟩

theorem fails_failed (message : String) (causes : List String) : (failed message causes).Fails :=
  ⟨rfl, rfl⟩

theorem fails_unsent (endpoint : String) : (unsent endpoint).Fails := ⟨rfl, rfl⟩

/-- A mistake in the arguments has an exit code of its own. -/
theorem exitCode_of_mistake {refusal : Command.Refusal} (h : refusal.isAnswer = false) :
    (refused refusal).exitCode = 2 := by
  rw [exitCode, h]
  rfl

theorem stdout_of_mistake {refusal : Command.Refusal} (h : refusal.isAnswer = false) :
    (refused refusal).stdout = "" := by
  cases refusal with
  | help | version => cases h
  | _ => rfl

section Reports

variable {ε α : Type} {outcome : Outcome} {document : α → Json.Document}

theorem reports_ok {value : α} (h : outcome.Prints (document value)) :
    outcome.Reports (.ok value : Except ε α) document :=
  ⟨.inl ⟨value, rfl, h⟩, iff_of_true h.exitCode ⟨value, rfl⟩⟩

theorem reports_error {fault : ε} (h : outcome.Fails) :
    outcome.Reports (.error fault : Except ε α) document := by
  refine ⟨.inr ⟨⟨fault, rfl⟩, h⟩, iff_of_false ?_ nofun⟩
  rw [h.exitCode]
  decide

end Reports

end Outcome

namespace Program

variable {environment : Settings.Environment} {arguments : List String} {transport : Transport}
  {settings : Settings} {transfer : Transfer} {url : Option String}

/-! ## Commands -/

/-- The advisor that a run asks: the one of the option, or else the one of the environment. -/
def advisor (environment : Settings.Environment) (url : Option String) : Remote :=
  .ofBaseUrl (url.getD ((environment.lookup "CHUNK_ADVISOR_OPTIMIZER_URL").getD
    "http://localhost:8000"))

theorem reports_plan (settings : Settings) (transport : Transport) (transfer : Transfer) :
    (execute settings transport (.plan transfer)).Reports (plan transfer) Plan.toDocument := by
  simp only [execute]
  cases plan transfer with
  | ok plan => exact Outcome.reports_ok (Outcome.prints_printed _)
  | error fault => exact Outcome.reports_error (Outcome.fails_failed _ _)

theorem reports_query (settings : Settings) (transport : Transport) (transfer : Transfer)
    (url : Option String) :
    (execute settings transport (.query transfer url)).Reports
      ((Remote.ofBaseUrl (url.getD settings.advisorUrl)).advise transport transfer)
      Advice.toDocument := by
  simp only [execute]
  cases (Remote.ofBaseUrl (url.getD settings.advisorUrl)).advise transport transfer with
  | ok advice => exact Outcome.reports_ok (Outcome.prints_printed _)
  | error fault =>
    refine Outcome.reports_error ?_
    cases fault with
    | unsent endpoint => exact Outcome.fails_unsent endpoint
    | badStatus | unreadable | unusable => exact Outcome.fails_failed _ _

/-! ## Runs -/

theorem run_of_fault {fault : Settings.Fault}
    (h : Settings.ofEnvironment environment = .error fault) :
    run environment arguments transport = .failed Settings.unreadableMessage [fault.message] := by
  unfold run
  rw [h]

theorem run_of_refusal {refusal : Command.Refusal}
    (hsettings : Settings.ofEnvironment environment = .ok settings)
    (harguments : Command.ofArguments arguments = .error refusal) :
    run environment arguments transport = .refused refusal := by
  unfold run
  rw [hsettings, harguments]

theorem run_of_command {command : Command}
    (hsettings : Settings.ofEnvironment environment = .ok settings)
    (harguments : Command.ofArguments arguments = .ok command) :
    run environment arguments transport = execute settings transport command := by
  unfold run
  rw [hsettings, harguments]

/-- **How a run ends.** If the timeout is set to a text that is no word the run fails, whatever its
arguments are. Otherwise bad arguments end it with an exit code of their own. Otherwise the command
decides: `predict` prints the advice, `plan` and `query` print what they come to or fail. -/
theorem run_outcomes (environment : Settings.Environment) (arguments : List String)
    (transport : Transport) :
    let outcome := run environment arguments transport
    let unreadable := ∃ text, environment.lookup "CHUNK_ADVISOR_TIMEOUT_SECS" = some text ∧
      ∀ seconds : UInt64, ¬ Decimal.IsUnsigned text.toList seconds.toNat
    (unreadable → outcome.Fails) ∧
    (¬ unreadable →
      (∀ refusal, Command.ofArguments arguments = .error refusal → refusal.isAnswer = false →
        outcome.exitCode = 2 ∧ outcome.stdout = "") ∧
      (∀ transfer, Command.ofArguments arguments = .ok (.predict transfer) →
        outcome.Prints (advise transfer).toDocument) ∧
      (∀ transfer, Command.ofArguments arguments = .ok (.plan transfer) →
        outcome.Reports (Plan.ofFile transfer.size (chunkBytes (advise transfer).chunkSize))
          Plan.toDocument) ∧
      ∀ transfer url, Command.ofArguments arguments = .ok (.query transfer url) →
        outcome.Reports ((advisor environment url).advise transport transfer)
          Advice.toDocument) := by
  intro outcome unreadable
  have hunreadable : (∃ fault, Settings.ofEnvironment environment = .error fault) ↔ unreadable :=
    Settings.exists_fault_iff
  rw [← hunreadable]
  cases hload : Settings.ofEnvironment environment with
  | error fault =>
    have houtcome : outcome = _ := run_of_fault hload
    refine ⟨fun _ => ?_, fun hreadable => absurd ⟨fault, rfl⟩ hreadable⟩
    rw [houtcome]
    exact Outcome.fails_failed _ _
  | ok settings =>
    refine ⟨nofun, fun _ => ⟨?_, ?_, ?_, ?_⟩⟩
    · intro refusal harguments hmistake
      have houtcome : outcome = _ := run_of_refusal hload harguments
      rw [houtcome]
      exact ⟨Outcome.exitCode_of_mistake hmistake, Outcome.stdout_of_mistake hmistake⟩
    · intro transfer harguments
      have houtcome : outcome = _ := run_of_command hload harguments
      rw [houtcome]
      exact Outcome.prints_printed _
    · intro transfer harguments
      have houtcome : outcome = _ := run_of_command hload harguments
      rw [houtcome]
      exact reports_plan settings transport transfer
    · intro transfer url harguments
      have houtcome : outcome = _ := run_of_command hload harguments
      have hadvisor : advisor environment url =
          .ofBaseUrl (url.getD settings.advisorUrl) := by
        rw [Settings.advisorUrl_of_ofEnvironment hload]
        rfl
      rw [houtcome, hadvisor]
      exact reports_query settings transport transfer url

/-- A timeout that is no number comes before a verb that is none; a plan of a negative size and a
question to nobody are failures of their commands. -/
theorem run_outcomes_at_soon :
    let soon : Settings.Environment := [("CHUNK_ADVISOR_TIMEOUT_SECS", "soon")]
    let seven : Settings.Environment := [("CHUNK_ADVISOR_TIMEOUT_SECS", "+7")]
    (run soon ["frobnicate"] Transport.down).Fails ∧
    (run seven ["frobnicate"] Transport.down).exitCode = 2 ∧
    (run seven ["predict", "1"] Transport.down).exitCode = 0 ∧
    (run seven ["plan", "-1"] Transport.down).exitCode ≠ 0 ∧
    (run seven ["query", "1"] Transport.down).exitCode ≠ 0 := by
  intro soon seven
  have hsoon := Settings.exists_fault_iff.1
    (show ∃ fault, Settings.ofEnvironment soon = .error fault from ⟨_, rfl⟩)
  have hseven (arguments : List String) :=
    (run_outcomes seven arguments Transport.down).2
      (mt Settings.exists_fault_iff.2 (by rintro ⟨_, ⟨⟩⟩))
  refine ⟨(run_outcomes soon ["frobnicate"] Transport.down).1 hsoon, ?_, ?_, ?_, ?_⟩
  · exact ((hseven ["frobnicate"]).1 .unknownVerb rfl rfl).1
  · exact ((hseven ["predict", "1"]).2.1 ⟨1, none, none, none⟩ (by decide +kernel)).exitCode
  · have hplan := (hseven ["plan", "-1"]).2.2.1 ⟨-1, none, none, none⟩ (by decide +kernel)
    rw [ne_eq, hplan.exitCode]
    exact nofun
  · have hquery := (hseven ["query", "1"]).2.2.2 ⟨1, none, none, none⟩ none (by decide +kernel)
    rw [ne_eq, hquery.exitCode]
    exact nofun

end Program

end ChunkSizing
