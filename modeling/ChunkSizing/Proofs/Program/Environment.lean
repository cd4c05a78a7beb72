import ChunkSizing.Proofs.Program.Outcomes

/-!
# ChunkSizing.Proofs.Program.Environment — what the environment has a say in.

Two environments that load make no difference to `predict` and `plan`. A run of `query` sends one
request, and a run depends on nothing of the transport but the answer to it (`Program.Asks`); of the
environment only the advisor's URL goes into that request, and an option takes its place.
-/

namespace ChunkSizing

/-! ## Commands that need no advisor -/

namespace Command

/-- The verb of a command. -/
def verb : Command → Verb
  | serve _ => .serve
  | predict _ => .predict
  | query .. => .query
  | plan _ => .plan

/-- **The words behind a verb** give a command of that verb, or none. -/
theorem verb_of_ofVerb {verb : Verb} {words : List String} {command : Command}
    (h : ofVerb verb words = .ok command) : command.verb = verb := by
  obtain ⟨_, -, h⟩ := Json.bind_eq_ok_iff.1 h
  obtain ⟨_, -, h⟩ := Json.bind_eq_ok_iff.1 h
  cases verb with
  | serve =>
    obtain rfl := Except.ok.inj h
    rfl
  | predict | query | plan =>
    obtain ⟨_, -, h⟩ := Json.bind_eq_ok_iff.1 h
    obtain rfl := Except.ok.inj h
    rfl

/-- A command that is carried out without an advisor or an address. -/
def IsLocal (command : Command) : Prop := command.verb = .predict ∨ command.verb = .plan

theorem isLocal_of_word {word : String} (hword : word = "predict" ∨ word = "plan")
    {words : List String} {command : Command} (h : ofArguments (word :: words) = .ok command) :
    command.IsLocal := by
  rcases hword with rfl | rfl
  · exact .inl (verb_of_ofVerb (show ofVerb .predict words = .ok command from h))
  · exact .inr (verb_of_ofVerb (show ofVerb .plan words = .ok command from h))

end Command

namespace Program

open Http

variable {environment environment' : Settings.Environment} {arguments : List String}
  {transport transport' : Transport} {settings settings' : Settings} {transfer : Transfer}
  {url : Option String} {asked : Request}

/-- Local commands are carried out alike under all settings. -/
theorem execute_of_isLocal {command : Command} (h : command.IsLocal) :
    execute settings transport command = execute settings' transport' command := by
  cases command with
  | predict | plan => rfl
  | serve | query => rcases h with h | h <;> cases h

/-- **Environments that load make no difference** to arguments that name no other command. -/
theorem run_of_isLocal (hload : Settings.ofEnvironment environment = .ok settings)
    (hload' : Settings.ofEnvironment environment' = .ok settings')
    (harguments : ∀ command, Command.ofArguments arguments = .ok command → command.IsLocal) :
    run environment arguments transport = run environment' arguments transport' := by
  cases hcommand : Command.ofArguments arguments with
  | error refusal => rw [run_of_refusal hload hcommand, run_of_refusal hload' hcommand]
  | ok command =>
    rw [run_of_command hload hcommand, run_of_command hload' hcommand]
    exact execute_of_isLocal (harguments command hcommand)

/-! ## The one request -/

/-- **A run asks a request** if nothing else of the transport matters to it: transports that answer
that request alike end the run alike. -/
def Asks (environment : Settings.Environment) (arguments : List String) (asked : Request) : Prop :=
  ∀ transport transport' : Transport, transport asked = transport' asked →
    run environment arguments transport = run environment arguments transport'

/-- What comes of an answer, or of there being none. -/
def ofAnswer (remote : Remote) : Option Response → Outcome
  | none => .unsent remote.endpoint
  | some response =>
    match Remote.receive response with
    | .ok advice => .printed advice.toDocument
    | .error (.unsent endpoint) => .unsent endpoint
    | .error fault => .failed fault.message fault.causes

theorem execute_query (settings : Settings) (transport : Transport) (transfer : Transfer)
    (url : Option String) :
    execute settings transport (.query transfer url) =
      ofAnswer (.ofBaseUrl (url.getD settings.advisorUrl))
        (transport ((Remote.ofBaseUrl (url.getD settings.advisorUrl)).request transfer)) := by
  simp only [execute, Remote.advise]
  cases transport ((Remote.ofBaseUrl (url.getD settings.advisorUrl)).request transfer) <;> rfl

/-- **A question is a function of the answer to its request.** -/
theorem run_query (hload : Settings.ofEnvironment environment = .ok settings)
    (harguments : Command.ofArguments arguments = .ok (.query transfer url)) :
    run environment arguments transport =
      ofAnswer (advisor environment url)
        (transport ((advisor environment url).request transfer)) := by
  rw [run_of_command hload harguments, execute_query,
    Settings.advisorUrl_of_ofEnvironment hload]
  rfl

/-- An answer is told from no answer. -/
theorem ofAnswer_404_ne_none (remote : Remote) :
    ofAnswer remote (some ⟨404, none, none, []⟩) ≠ ofAnswer remote none := by
  have hrefused : Remote.receive ⟨404, none, none, []⟩ = .error (.badStatus 404) := rfl
  simp only [ofAnswer, hrefused]
  exact nofun

theorem asks_iff (hload : Settings.ofEnvironment environment = .ok settings)
    (harguments : Command.ofArguments arguments = .ok (.query transfer url)) :
    Asks environment arguments asked ↔ asked = (advisor environment url).request transfer := by
  unfold Asks
  simp only [run_query hload harguments]
  constructor
  · intro hasks
    by_contra hne
    -- a transport that answers that one request only is told from one that answers none
    let only : Transport := fun request =>
      if request = (advisor environment url).request transfer then some ⟨404, none, none, []⟩
      else none
    have hsame := hasks only Transport.down (if_neg hne)
    rw [show only _ = some ⟨404, none, none, []⟩ from if_pos rfl] at hsame
    exact ofAnswer_404_ne_none _ hsame
  · rintro rfl transport transport' hanswer
    rw [hanswer]

/-! ## Two environments -/

/-- **What the environment has a say in.** Of two environments that load neither the exit code nor
what is printed tells which one it was, if the arguments are those of `predict` or `plan`. A run of
`query` asks one request: a `POST` of the transfer to the endpoint of the URL that stands among the
arguments, or else in the environment, or else is the standard one. With a URL among the arguments
environments that load ask the same request, and the same answer leads to the same outcome. -/
theorem run_noninterference {environment environment' : Settings.Environment}
    (hload : ∃ settings, Settings.ofEnvironment environment = .ok settings)
    (hload' : ∃ settings, Settings.ofEnvironment environment' = .ok settings) :
    (∀ word words transport transport', word = "predict" ∨ word = "plan" →
      run environment (word :: words) transport = run environment' (word :: words) transport') ∧
    (∀ arguments transfer url, Command.ofArguments arguments = .ok (.query transfer url) →
      let base := url.getD ((environment.lookup "CHUNK_ADVISOR_OPTIMIZER_URL").getD
        "http://localhost:8000")
      ∀ asked, Asks environment arguments asked ↔
        asked = ⟨"POST", (Remote.ofBaseUrl base).endpoint,
          [("content-type", Utf8.ofString "application/json")],
          Utf8.encode (transfer.toDocument.chars .compact)⟩) ∧
    ∀ arguments transfer url, Command.ofArguments arguments = .ok (.query transfer (some url)) →
      (∀ asked, Asks environment arguments asked ↔ Asks environment' arguments asked) ∧
      ∀ asked transport transport', Asks environment arguments asked →
        transport asked = transport' asked →
          run environment arguments transport = run environment' arguments transport' := by
  obtain ⟨settings, hload⟩ := hload
  obtain ⟨settings', hload'⟩ := hload'
  refine ⟨?_, ?_, ?_⟩
  · intro word words transport transport' hword
    exact run_of_isLocal hload hload' fun command => Command.isLocal_of_word hword
  · intro arguments transfer url harguments base asked
    exact asks_iff hload harguments
  · intro arguments transfer url harguments
    have hsame : advisor environment (some url) = advisor environment' (some url) := rfl
    refine ⟨?_, ?_⟩
    · intro asked
      rw [asks_iff hload harguments, asks_iff hload' harguments, hsame]
    · intro asked transport transport' hasks hanswer
      rw [asks_iff hload harguments] at hasks
      rw [run_query hload harguments, run_query hload' harguments, ← hsame, ← hasks, hanswer]

/-- The variable of the URL is what a question without an option goes to; nothing of it is left
where the option is there. -/
theorem run_noninterference_at_option :
    let bare : Settings.Environment := []
    let other : Settings.Environment :=
      [("CHUNK_ADVISOR_OPTIMIZER_URL", "http://b/"), ("CHUNK_ADVISOR_TIMEOUT_SECS", "5")]
    let asked (target : String) : Request := ⟨"POST", target,
      [("content-type", Utf8.ofString "application/json")],
      Utf8.ofString "\x7b\"size_bytes\":10\x7d"⟩
    run bare ["plan", "10"] Transport.down = run other ["plan", "10"] Transport.down ∧
    Asks bare ["query", "10"] (asked "http://localhost:8000/predict-chunk-size") ∧
    Asks other ["query", "10"] (asked "http://b/predict-chunk-size") ∧
    ∀ transport, run bare ["query", "10", "--url=http://a"] transport =
      run other ["query", "10", "--url=http://a"] transport := by
  intro bare other asked
  obtain ⟨hlocal, hquery, hoption⟩ := run_noninterference
    (show ∃ settings, Settings.ofEnvironment bare = .ok settings from ⟨_, rfl⟩)
    (show ∃ settings, Settings.ofEnvironment other = .ok settings from ⟨_, rfl⟩)
  obtain ⟨-, hquery', -⟩ := run_noninterference
    (show ∃ settings, Settings.ofEnvironment other = .ok settings from ⟨_, rfl⟩)
    (show ∃ settings, Settings.ofEnvironment bare = .ok settings from ⟨_, rfl⟩)
  have hplain : Command.ofArguments ["query", "10"] =
      .ok (.query ⟨10, none, none, none⟩ none) := by decide +kernel
  have hurl : Command.ofArguments ["query", "10", "--url=http://a"] =
      .ok (.query ⟨10, none, none, none⟩ (some "http://a")) := by decide +kernel
  refine ⟨hlocal _ _ _ _ (.inr rfl), (hquery _ _ _ hplain _).2 (by decide +kernel),
    (hquery' _ _ _ hplain _).2 (by decide +kernel), ?_⟩
  intro transport
  obtain ⟨-, hsame⟩ := hoption _ _ _ hurl
  exact hsame _ _ _ ((asks_iff rfl hurl).2 rfl) rfl

end Program

end ChunkSizing
