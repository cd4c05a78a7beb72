import ChunkSizing.Command.Arguments
import ChunkSizing.Plan
import ChunkSizing.Remote
import ChunkSizing.Rules
import ChunkSizing.Settings
import ChunkSizing.Transfer.Format

/-!
# ChunkSizing.Program — one run of the program.

A run is a function of the environment, the arguments and the transport. It ends with an outcome;
what an outcome prints and its exit code are read off it. The environment is read before the
arguments, so settings that cannot be read end every run, even one with bad arguments.
-/

namespace ChunkSizing

/-! ## Addresses -/

/-- An address that nothing can listen at. -/
inductive AddressFault where
  | notAddress
  | badPort
deriving DecidableEq

/-- The wording of each fault. -/
def AddressFault.message : AddressFault → String
  | notAddress => "invalid socket address"
  | badPort => "invalid port value"

/-- **What is wrong with an address.** It is a host and a port with a colon between them; the last
colon counts. -/
def AddressFault.of? (address : String) : Option AddressFault :=
  let letters := address.toList.reverse
  if ':' ∉ letters then some .notAddress
  else
    match Decimal.uint16 (String.ofList (letters.takeWhile (· != ':')).reverse) with
    | .ok _ => none
    | .error _ => some .badPort

/-! ## Outcomes -/

/-- How a run ends. -/
inductive Outcome where
  /-- A document was printed. -/
  | printed (document : Json.Document)
  /-- The arguments name no command, or call for help or the version. -/
  | refused (refusal : Command.Refusal)
  /-- The command failed, with what lies under the failure. -/
  | failed (message : String) (causes : List String)
  /-- A request did not get through; what lies under that is the transport's to say. -/
  | unsent (endpoint : String)
  /-- The service is to listen at an address. -/
  | listening (address : String)
deriving DecidableEq

namespace Outcome

/-- **The exit code.** Mistakes in the arguments are told apart from commands that fail. -/
def exitCode : Outcome → Nat
  | printed _ | listening _ => 0
  | refused refusal => if refusal.isAnswer then 0 else 2
  | failed .. | unsent _ => 1

/-- The version line. -/
def versionLine : String := "chunk-advisor 0.1.0\n"

/-- The answer to a call for help. -/
def usage : String :=
  "Chunk size advisor for file transfer pipelines\n\n" ++
  "Usage: chunk-advisor <COMMAND>\n\n" ++
  "Commands:\n" ++
  "  serve    Run the HTTP prediction service\n" ++
  "  predict  Predict a chunk size locally\n" ++
  "  query    Ask a running advisor for a chunk size\n" ++
  "  plan     Print the chunk plan for a file using the predicted chunk size\n" ++
  "  help     Print this message or the help of the given subcommand(s)\n"

/-- What goes to standard output. -/
def stdout : Outcome → String
  | printed document => document.render .pretty ++ "\n"
  | refused .help => usage
  | refused .version => versionLine
  | refused _ | failed .. | unsent _ | listening _ => ""

/-- The causes under a failure. Several are numbered. -/
def causeLines : List String → String
  | [] => "\n"
  | [cause] => "\n\nCaused by:\n    " ++ cause ++ "\n"
  | causes =>
    "\n\nCaused by:" ++
      String.join (causes.zipIdx.map fun (cause, index) =>
        "\n    " ++ index.repr ++ ": " ++ cause) ++
      "\n"

/-- The first line of a text, without the line feed, or the carriage return and line feed, that end
it. -/
def firstLine (text : List Char) : List Char :=
  let line := text.takeWhile (· != '\n')
  if line.getLast? = some '\r' then line.dropLast else line

/-- What goes to standard error. Of a request that did not get through it is one line. -/
def stderr : Outcome → String
  | failed message causes => "Error: " ++ message ++ causeLines causes
  | unsent endpoint =>
    String.ofList (firstLine ("Error: " ++ (Remote.Fault.unsent endpoint).message).toList)
  | refused refusal => if refusal.isAnswer then "" else refusal.message ++ "\n"
  | printed _ | listening _ => ""

end Outcome

/-! ## Running -/

namespace Program

/-- The advice of the standard rules. -/
def advise (transfer : Transfer) : Advice := Rules.standard.estimator.advise transfer

/-- The plan that follows from the standard rules. -/
def plan (transfer : Transfer) : Except Plan.Fault Plan :=
  Plan.ofFile transfer.size (chunkBytes (advise transfer).chunkSize)

/-- Carries out a command under settings. -/
def execute (settings : Settings) (transport : Transport) : Command → Outcome
  | .serve bind =>
    let address := bind.getD settings.bindAddress
    match AddressFault.of? address with
    | some fault => .failed ("bind " ++ address) [fault.message]
    | none => .listening address
  | .predict transfer => .printed (advise transfer).toDocument
  | .query transfer url =>
    match (Remote.ofBaseUrl (url.getD settings.advisorUrl)).advise transport transfer with
    | .ok advice => .printed advice.toDocument
    | .error (.unsent endpoint) => .unsent endpoint
    | .error fault => .failed fault.message fault.causes
  | .plan transfer =>
    match plan transfer with
    | .ok plan => .printed plan.toDocument
    | .error fault => .failed fault.message fault.causes

/-- **One run.** -/
def run (environment : Settings.Environment) (arguments : List String) (transport : Transport) :
    Outcome :=
  match Settings.ofEnvironment environment with
  | .error fault => .failed Settings.unreadableMessage [fault.message]
  | .ok settings =>
    match Command.ofArguments arguments with
    | .error refusal => .refused refusal
    | .ok command => execute settings transport command

end Program

end ChunkSizing
