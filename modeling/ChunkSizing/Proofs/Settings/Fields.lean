import ChunkSizing.Proofs.Program.Outcomes

/-!
# ChunkSizing.Proofs.Settings.Fields — every setting by its own variable.

A setting is the text of its variable, or the standard one if that is not set (`IsLoaded`); so two
environments that agree on a variable agree on its setting (`AgreeFieldwise`). Settings are loaded
unless the timeout is unreadable, and then the fault names its variable and nothing else.
-/

namespace ChunkSizing.Settings

variable {environment environment' : Environment} {settings settings' : Settings}

/-! ## One environment -/

/-- **The settings of an environment**, field by field. A variable that is set to the empty text is
set. -/
structure IsLoaded (environment : Environment) (settings : Settings) : Prop where
  bindAddress : settings.bindAddress =
    (environment.lookup "CHUNK_ADVISOR_BIND_ADDR").getD standard.bindAddress
  logLevel : settings.logLevel =
    (environment.lookup "CHUNK_ADVISOR_LOG_LEVEL").getD standard.logLevel
  advisorUrl : settings.advisorUrl =
    (environment.lookup "CHUNK_ADVISOR_OPTIMIZER_URL").getD standard.advisorUrl
  timeout : IsTimeout (environment.lookup "CHUNK_ADVISOR_TIMEOUT_SECS") settings.timeoutSeconds

theorem isLoaded_of_ofEnvironment (h : ofEnvironment environment = .ok settings) :
    IsLoaded environment settings := by
  obtain ⟨seconds, htimeout, rfl⟩ := ofEnvironment_eq_ok_iff.1 h
  exact ⟨rfl, rfl, rfl, htimeout⟩

/-- A variable holds one timeout at most. -/
theorem IsTimeout.eq_of_isTimeout {text? : Option String} {seconds seconds' : UInt64}
    (h : IsTimeout text? seconds) (h' : IsTimeout text? seconds') : seconds = seconds' := by
  cases h with
  | standard =>
    cases h'
    rfl
  | text htext =>
    cases h' with
    | text htext' =>
      rw [← Decimal.uint64_eq_ok_iff] at htext htext'
      rw [htext] at htext'
      exact Except.ok.inj htext'

/-- **What a timeout can be read from**: no text, or one of a number that a word holds. -/
theorem exists_isTimeout_iff {text? : Option String} : (∃ seconds, IsTimeout text? seconds) ↔
    ∀ text, text? = some text → ∃ n, Decimal.IsUnsigned text.toList n ∧ n ≤ 2 ^ 64 - 1 := by
  constructor
  · rintro ⟨seconds, h⟩ text rfl
    have hword := seconds.toNat_lt
    cases h with
    | text htext => exact ⟨_, htext, by omega⟩
  · intro h
    cases text? with
    | none => exact ⟨_, .standard⟩
    | some text =>
      obtain ⟨n, htext, hn⟩ := h text rfl
      have hword : (UInt64.ofNat n).toNat = n :=
        UInt64.toNat_ofNat_of_lt' (show n < 2 ^ 64 by omega)
      exact ⟨UInt64.ofNat n, .text (by rwa [hword])⟩

theorem exists_ofEnvironment_iff : (∃ settings, ofEnvironment environment = .ok settings) ↔
    ∃ seconds, IsTimeout (environment.lookup timeoutVariable) seconds := by
  simp only [ofEnvironment_eq_ok_iff]
  constructor
  · rintro ⟨_, seconds, htimeout, -⟩
    exact ⟨seconds, htimeout⟩
  · rintro ⟨seconds, htimeout⟩
    exact ⟨_, seconds, htimeout, rfl⟩

theorem eq_of_ofEnvironment_eq_error {fault : Fault}
    (h : ofEnvironment environment = .error fault) : fault = ⟨timeoutVariable⟩ := by
  unfold ofEnvironment at h
  split at h
  · cases h
  · split at h
    · cases h
    · cases h
      rfl

/-! ## Two environments -/

/-- **Settings agree field by field**, wherever their environments agree on the field's own
variable. -/
structure AgreeFieldwise (environment environment' : Environment) (settings settings' : Settings) :
    Prop where
  bindAddress : environment.lookup "CHUNK_ADVISOR_BIND_ADDR" =
    environment'.lookup "CHUNK_ADVISOR_BIND_ADDR" → settings.bindAddress = settings'.bindAddress
  logLevel : environment.lookup "CHUNK_ADVISOR_LOG_LEVEL" =
    environment'.lookup "CHUNK_ADVISOR_LOG_LEVEL" → settings.logLevel = settings'.logLevel
  advisorUrl : environment.lookup "CHUNK_ADVISOR_OPTIMIZER_URL" =
    environment'.lookup "CHUNK_ADVISOR_OPTIMIZER_URL" → settings.advisorUrl = settings'.advisorUrl
  timeout : environment.lookup "CHUNK_ADVISOR_TIMEOUT_SECS" =
    environment'.lookup "CHUNK_ADVISOR_TIMEOUT_SECS" →
      settings.timeoutSeconds = settings'.timeoutSeconds

theorem IsLoaded.agreeFieldwise (h : IsLoaded environment settings)
    (h' : IsLoaded environment' settings') :
    AgreeFieldwise environment environment' settings settings' where
  bindAddress hsame := by rw [h.bindAddress, h'.bindAddress, hsame]
  logLevel hsame := by rw [h.logLevel, h'.logLevel, hsame]
  advisorUrl hsame := by rw [h.advisorUrl, h'.advisorUrl, hsame]
  timeout hsame := h.timeout.eq_of_isTimeout (hsame ▸ h'.timeout)

/-! ## Loading -/

/-- **Settings are loaded field by field.** They are exactly if the timeout is not set, or set to
the text of a number that a word of 64 bits holds. Each setting is then what its own variable says,
or the standard one, and depends on no other variable; the decimal text of a word says that word.
Otherwise the fault is in the timeout, and every run fails with it. -/
theorem ofEnvironment_fieldwise (environment : Environment) :
    ((∃ settings, ofEnvironment environment = .ok settings) ↔
      environment.lookup "CHUNK_ADVISOR_TIMEOUT_SECS" = none ∨
        ∃ text n, environment.lookup "CHUNK_ADVISOR_TIMEOUT_SECS" = some text ∧
          Decimal.IsUnsigned text.toList n ∧ n ≤ 2 ^ 64 - 1) ∧
    (∀ settings, ofEnvironment environment = .ok settings →
      IsLoaded environment settings ∧
      ∀ environment' settings', ofEnvironment environment' = .ok settings' →
        AgreeFieldwise environment environment' settings settings') ∧
    (∀ n : UInt64, environment.lookup "CHUNK_ADVISOR_TIMEOUT_SECS" = some n.toNat.repr →
      ∃ settings, ofEnvironment environment = .ok settings ∧ settings.timeoutSeconds = n) ∧
    ∀ fault, ofEnvironment environment = .error fault →
      fault = ⟨"CHUNK_ADVISOR_TIMEOUT_SECS"⟩ ∧
      fault.message = "Failed to parse environment variable CHUNK_ADVISOR_TIMEOUT_SECS" ∧
      ∀ arguments transport, Program.run environment arguments transport =
        .failed "load configuration from environment" [fault.message] := by
  refine ⟨?_, ?_, ?_, ?_⟩
  · rw [exists_ofEnvironment_iff, exists_isTimeout_iff]
    show (∀ text, environment.lookup "CHUNK_ADVISOR_TIMEOUT_SECS" = some text → _) ↔ _
    cases environment.lookup "CHUNK_ADVISOR_TIMEOUT_SECS" <;> simp
  · intro settings hload
    refine ⟨isLoaded_of_ofEnvironment hload, fun environment' settings' hload' => ?_⟩
    exact (isLoaded_of_ofEnvironment hload).agreeFieldwise (isLoaded_of_ofEnvironment hload')
  · intro n hset
    have htimeout : IsTimeout (environment.lookup timeoutVariable) n :=
      hset ▸ .text (Decimal.isUnsigned_repr n.toNat)
    exact ⟨_, ofEnvironment_eq_ok_iff.2 ⟨n, htimeout, rfl⟩, rfl⟩
  · intro fault hload
    obtain rfl := eq_of_ofEnvironment_eq_error hload
    exact ⟨rfl, rfl, fun arguments transport => Program.run_of_fault hload⟩

/-- Zeros in front and a plus do not count, an empty text is an address; one more than the largest
word is too much, whatever else is set and asked for. -/
theorem ofEnvironment_fieldwise_at_ends :
    let seven : Environment :=
      [("CHUNK_ADVISOR_TIMEOUT_SECS", "+00000000000000000000007"), ("CHUNK_ADVISOR_BIND_ADDR", "")]
    let beyond : Environment :=
      [("CHUNK_ADVISOR_LOG_LEVEL", "debug"), ("CHUNK_ADVISOR_TIMEOUT_SECS", "18446744073709551616")]
    (∃ settings, ofEnvironment seven = .ok settings ∧ IsLoaded seven settings ∧
      AgreeFieldwise seven [] settings standard) ∧
    Program.run beyond ["predict", "1"] Transport.down =
      .failed "load configuration from environment"
        ["Failed to parse environment variable CHUNK_ADVISOR_TIMEOUT_SECS"] := by
  intro seven beyond
  have hload : ofEnvironment seven = .ok ⟨"", "info", "http://localhost:8000", 7⟩ := by
    decide +kernel
  obtain ⟨-, hloaded, -⟩ := ofEnvironment_fieldwise seven
  obtain ⟨-, -, -, hfault⟩ := ofEnvironment_fieldwise beyond
  obtain ⟨hseven, hagree⟩ := hloaded _ hload
  exact ⟨⟨_, hload, hseven, hagree [] standard rfl⟩,
    (hfault ⟨"CHUNK_ADVISOR_TIMEOUT_SECS"⟩ (by decide +kernel)).2.2 _ _⟩

end ChunkSizing.Settings
