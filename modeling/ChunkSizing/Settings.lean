import ChunkSizing.Decimal.Literal

/-!
# ChunkSizing.Settings — settings from the environment.

Each setting has a variable of its own and a standard value. A variable that is set to the empty
text is set. Only the timeout is read as anything but text, so only it can be refused.
-/

namespace ChunkSizing

/-- A span of time. -/
structure Duration where
  seconds : UInt64
  nanoseconds : Nat
deriving DecidableEq

/-- The settings of the program. -/
structure Settings where
  /-- Where the service listens. -/
  bindAddress : String
  logLevel : String
  /-- The base URL of a running advisor. -/
  advisorUrl : String
  timeoutSeconds : UInt64
deriving DecidableEq

namespace Settings

/-- The standard settings. -/
def standard : Settings := ⟨"0.0.0.0:8000", "info", "http://localhost:8000", 2⟩

/-- How long a request may take. -/
def timeout (settings : Settings) : Duration := ⟨settings.timeoutSeconds, 0⟩

/-- The variable of the address. -/
def bindAddressVariable : String := "CHUNK_ADVISOR_BIND_ADDR"

/-- The variable of the log level. -/
def logLevelVariable : String := "CHUNK_ADVISOR_LOG_LEVEL"

/-- The variable of the advisor's URL. -/
def advisorUrlVariable : String := "CHUNK_ADVISOR_OPTIMIZER_URL"

/-- The variable of the timeout. -/
def timeoutVariable : String := "CHUNK_ADVISOR_TIMEOUT_SECS"

/-- A variable that cannot be read. -/
structure Fault where
  variableName : String
deriving DecidableEq

/-- The wording of a fault. -/
def Fault.message (fault : Fault) : String :=
  "Failed to parse environment variable " ++ fault.variableName

/-- The variables that are set, by name. -/
abbrev Environment := List (String × String)

/-- **Settings from an environment.** -/
def ofEnvironment (environment : Environment) : Except Fault Settings :=
  let settings : Settings :=
    { standard with
      bindAddress := (environment.lookup bindAddressVariable).getD standard.bindAddress
      logLevel := (environment.lookup logLevelVariable).getD standard.logLevel
      advisorUrl := (environment.lookup advisorUrlVariable).getD standard.advisorUrl }
  match environment.lookup timeoutVariable with
  | none => .ok settings
  | some text =>
    match Decimal.uint64 text with
    | .ok seconds => .ok { settings with timeoutSeconds := seconds }
    | .error _ => .error ⟨timeoutVariable⟩

/-- How the program reports settings that it cannot read; the fault itself lies under this. -/
def unreadableMessage : String := "load configuration from environment"

end Settings

end ChunkSizing
