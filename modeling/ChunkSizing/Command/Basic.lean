import ChunkSizing.Text.ControlSequence
import ChunkSizing.Transfer.Basic

/-!
# ChunkSizing.Command.Basic — what the program can be told to do.

A command is a verb with the values of its places. A place is where a value goes: the size stands by
itself, the others stand behind an option of their name.
-/

namespace ChunkSizing

/-- What the program is told to do. -/
inductive Command where
  /-- Answer requests at an address. -/
  | serve (bind : Option String)
  /-- Print the advice of the standard rules. -/
  | predict (transfer : Transfer)
  /-- Ask the advisor at a URL. -/
  | query (transfer : Transfer) (url : Option String)
  /-- Print the plan that follows from the standard rules. -/
  | plan (transfer : Transfer)
deriving DecidableEq

namespace Command

/-! ## Verbs and places -/

/-- Where a value goes. -/
inductive Place where
  | size
  | mimeType
  | bandwidth
  | latency
  | url
  | bind
deriving DecidableEq

/-- The first word of a command. -/
inductive Verb where
  | serve
  | predict
  | query
  | plan
deriving DecidableEq

/-- The verb of a word. -/
def Verb.of? (word : String) : Option Verb :=
  if word = "serve" then some .serve
  else if word = "predict" then some .predict
  else if word = "query" then some .query
  else if word = "plan" then some .plan
  else none

/-- A verb that takes a transfer takes its size. -/
def Verb.takesSize : Verb → Bool
  | serve => false
  | predict | query | plan => true

/-- The options of a verb, by name. -/
def Verb.options : Verb → List (String × Place)
  | serve => [("bind", .bind)]
  | predict | plan =>
    [("mime-type", .mimeType), ("bandwidth", .bandwidth), ("latency", .latency)]
  | query =>
    [("mime-type", .mimeType), ("bandwidth", .bandwidth), ("latency", .latency), ("url", .url)]

/-- How a place is named in messages. -/
def Place.label : Place → String
  | size => "<SIZE_BYTES>"
  | mimeType => "--mime-type <MIME_TYPE>"
  | bandwidth => "--bandwidth <BANDWIDTH_MBPS>"
  | latency => "--latency <LATENCY_MS>"
  | url => "--url <URL>"
  | bind => "--bind <BIND>"

/-! ## Refused arguments -/

/-- Why arguments name no command. A call for help or for the version is one of the reasons. -/
inductive Refusal where
  | help
  | version
  | nothingGiven
  | unknownVerb
  | unknownArgument
  /-- An option without its value. -/
  | valueMissing
  /-- A value behind an option that takes none. -/
  | valueUnwanted
  /-- An option that was given before. -/
  | repeated
  | invalidValue (place : Place) (value : String) (reason : String)
  | sizeMissing
deriving DecidableEq

/-- Help and version are answers; every other reason is a mistake. -/
def Refusal.isAnswer : Refusal → Bool
  | help | version => true
  | _ => false

/-- The wording of each reason. A value is shown without control sequences. -/
def Refusal.message : Refusal → String
  | help => "help requested"
  | version => "version requested"
  | nothingGiven => "error: a command is required"
  | unknownVerb => "error: unrecognized command"
  | unknownArgument => "error: unexpected argument"
  | valueMissing => "error: an option needs a value"
  | valueUnwanted => "error: an option takes no value"
  | repeated => "error: an option cannot be used multiple times"
  | invalidValue place value reason =>
    "error: invalid value '" ++ String.ofList (Text.withoutSequences value.toList) ++ "' for '" ++
      place.label ++ "': " ++ reason
  | sizeMissing => "error: a size is required"

end Command

end ChunkSizing
