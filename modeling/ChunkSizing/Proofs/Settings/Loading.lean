import ChunkSizing.Proofs.Decimal.Literal
import ChunkSizing.Settings

/-!
# ChunkSizing.Proofs.Settings.Loading — which environments can be read.

Three settings are the texts of their variables. Only the timeout can stand in the way: settings
load exactly if its variable is not set, or set to the text of a word of 64 bits
(`Settings.ofEnvironment_eq_ok_iff`).
-/

namespace ChunkSizing.Settings

variable {environment : Environment} {settings : Settings}

/-- The settings of an environment, with a timeout. -/
def withTimeout (environment : Environment) (seconds : UInt64) : Settings where
  bindAddress := (environment.lookup bindAddressVariable).getD standard.bindAddress
  logLevel := (environment.lookup logLevelVariable).getD standard.logLevel
  advisorUrl := (environment.lookup advisorUrlVariable).getD standard.advisorUrl
  timeoutSeconds := seconds

/-- **What a timeout is read from**: a text for it, or none. -/
inductive IsTimeout : Option String → UInt64 → Prop where
  | standard : IsTimeout none standard.timeoutSeconds
  | text {text : String} {seconds : UInt64}
      (h : Decimal.IsUnsigned text.toList seconds.toNat) : IsTimeout (some text) seconds

/-- **The settings that load.** -/
theorem ofEnvironment_eq_ok_iff : ofEnvironment environment = .ok settings ↔
    ∃ seconds, IsTimeout (environment.lookup timeoutVariable) seconds ∧
      settings = withTimeout environment seconds := by
  unfold ofEnvironment
  cases environment.lookup timeoutVariable with
  | none =>
    constructor
    · rintro ⟨⟩
      exact ⟨_, .standard, rfl⟩
    · rintro ⟨_, ⟨⟩, rfl⟩
      rfl
  | some text =>
    dsimp only
    cases hread : Decimal.uint64 text with
    | ok found =>
      constructor
      · rintro ⟨⟩
        exact ⟨found, .text (Decimal.uint64_eq_ok_iff.1 hread), rfl⟩
      · rintro ⟨seconds, htimeout, rfl⟩
        cases htimeout with
        | text h =>
          rw [Decimal.uint64_eq_ok_iff.2 h] at hread
          cases hread
          rfl
    | error fault =>
      refine iff_of_false nofun ?_
      rintro ⟨seconds, htimeout, -⟩
      cases htimeout with
      | text h =>
        rw [Decimal.uint64_eq_ok_iff.2 h] at hread
        cases hread

/-- **The environments that do not load**: the timeout is set to a text that is no word. -/
theorem exists_fault_iff : (∃ fault, ofEnvironment environment = .error fault) ↔
    ∃ text, environment.lookup timeoutVariable = some text ∧
      ∀ seconds : UInt64, ¬ Decimal.IsUnsigned text.toList seconds.toNat := by
  cases hload : ofEnvironment environment with
  | ok settings =>
    obtain ⟨seconds, htimeout, -⟩ := ofEnvironment_eq_ok_iff.1 hload
    refine iff_of_false nofun ?_
    rintro ⟨text, hset, hbad⟩
    rw [hset] at htimeout
    cases htimeout with
    | text h => exact hbad seconds h
  | error fault =>
    refine iff_of_true ⟨fault, rfl⟩ ?_
    have hnone {seconds : UInt64} :
        ¬ IsTimeout (environment.lookup timeoutVariable) seconds := by
      intro htimeout
      rw [ofEnvironment_eq_ok_iff.2 ⟨seconds, htimeout, rfl⟩] at hload
      cases hload
    cases hset : environment.lookup timeoutVariable with
    | none =>
      rw [hset] at hnone
      exact absurd .standard hnone
    | some text =>
      rw [hset] at hnone
      exact ⟨text, rfl, fun seconds h => hnone (.text h)⟩

/-- The advisor's URL is its variable's text, whatever the other variables are. -/
theorem advisorUrl_of_ofEnvironment (h : ofEnvironment environment = .ok settings) :
    settings.advisorUrl =
      (environment.lookup advisorUrlVariable).getD standard.advisorUrl := by
  obtain ⟨_, -, rfl⟩ := ofEnvironment_eq_ok_iff.1 h
  rfl

end ChunkSizing.Settings
