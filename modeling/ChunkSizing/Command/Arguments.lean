import ChunkSizing.Command.Basic
import ChunkSizing.Decimal.Literal

/-!
# ChunkSizing.Command.Arguments — commands from words.

Words are taken from left to right. A value that stands in a word of its own is held back until the
next place is begun, and only then read; a value attached with `=` is read at once. So a word that
nobody knows is reported before a bad value that is still held back, but after a bad attached one.

While the size has not been given, a word that looks like a negative number counts as a value and
not as a group of short options. Behind `--` every word stands by itself.
-/

namespace ChunkSizing.Command

/-! ## Words -/

/-- How a word looks, leaving its place aside. -/
inductive Word where
  /-- Two hyphens alone. -/
  | separator
  /-- A long option, with the value that is attached to it. -/
  | long (name : String) (attached : Option String)
  /-- A group of short options. -/
  | short (letters : List Char)
  | bare
deriving DecidableEq

/-- A name and what is attached to it with an equals sign. -/
def Word.ofLong (text : List Char) : Word :=
  let name := String.ofList (text.takeWhile (· != '='))
  match text.dropWhile (· != '=') with
  | [] => .long name none
  | _ :: value => .long name (some (String.ofList value))

/-- The look of a word. A hyphen alone is bare. -/
def Word.of (word : String) : Word :=
  match word.toList with
  | ['-'] => .bare
  | ['-', '-'] => .separator
  | '-' :: '-' :: text => .ofLong text
  | '-' :: letters => .short letters
  | _ => .bare

/-- Digits, with at most one point among them and at most one exponent mark behind it; neither is
the first character, and the mark is not the last. `point` and `mark` may still come. -/
def isNumberTail (first point mark : Bool) : List Char → Bool
  | [] => true
  | c :: rest =>
    if c.isDigit then isNumberTail false point mark rest
    else if c = '.' ∧ point ∧ ¬ first then isNumberTail false false mark rest
    else if (c = 'e' ∨ c = 'E') ∧ mark ∧ ¬ first ∧ rest ≠ [] then
      isNumberTail false false false rest
    else false

/-- **The letters behind a hyphen look like a number.** -/
def looksNumeric (letters : List Char) : Bool := isNumberTail true true true letters

/-! ## Places and their values -/

/-- The values that have been read. -/
structure Draft where
  size : Option Int64
  mimeType : Option String
  bandwidth : Option Binary64
  latency : Option Binary64
  url : Option String
  bind : Option String
deriving DecidableEq

/-- No value yet. -/
def Draft.blank : Draft := ⟨none, none, none, none, none, none⟩

/-- The place has its value. -/
def Draft.has (draft : Draft) : Place → Bool
  | .size => draft.size.isSome
  | .mimeType => draft.mimeType.isSome
  | .bandwidth => draft.bandwidth.isSome
  | .latency => draft.latency.isSome
  | .url => draft.url.isSome
  | .bind => draft.bind.isSome

/-- A measurement from its text. -/
def measurement (place : Place) (value : String) : Except Refusal Binary64 :=
  match Binary64.ofText value with
  | .ok number => .ok number
  | .error fault => .error (.invalidValue place value fault.message)

/-- **Reads a value into its place**, which must be free. -/
def Draft.fill (draft : Draft) (place : Place) (value : String) : Except Refusal Draft :=
  if draft.has place then .error .repeated
  else
    match place with
    | .size =>
      match Decimal.int64 value with
      | .ok size => .ok { draft with size := some size }
      | .error fault => .error (.invalidValue .size value fault.message)
    | .mimeType => .ok { draft with mimeType := some value }
    | .bandwidth => (measurement .bandwidth value).map fun x => { draft with bandwidth := some x }
    | .latency => (measurement .latency value).map fun x => { draft with latency := some x }
    | .url => .ok { draft with url := some value }
    | .bind => .ok { draft with bind := some value }

/-- What is held back. -/
inductive Pending where
  | nothing
  /-- An option whose value has not come. -/
  | wanting (place : Place)
  | holding (place : Place) (value : String)
deriving DecidableEq

/-- How far the words of a verb have been taken. -/
structure State where
  draft : Draft
  pending : Pending
  /-- A word has been taken as the size. -/
  sizeTaken : Bool
deriving DecidableEq

/-- **Reads what is held back.** -/
def State.settle (state : State) : Except Refusal Draft :=
  match state.pending with
  | .nothing => .ok state.draft
  | .wanting _ => .error .valueMissing
  | .holding place value => state.draft.fill place value

/-! ## The words of a verb -/

/-- The size may still come. -/
def State.isOpen (verb : Verb) (state : State) : Bool := verb.takesSize && !state.sizeTaken

/-- A word that stands by itself: the size, if that may still come. -/
def State.byItself (verb : Verb) (state : State) (word : String) : Except Refusal State :=
  if state.isOpen verb then do
    let draft ← state.settle
    return ⟨draft, .holding .size word, true⟩
  else .error .unknownArgument

/-- A word that is a value: of the option before it, or by itself. -/
def State.value (verb : Verb) (state : State) (word : String) : Except Refusal State :=
  match state.pending with
  | .wanting place => .ok { state with pending := .holding place word }
  | _ => state.byItself verb word

/-- An answer that was called for, unless what is held back is refused. -/
def State.answer (state : State) (answer : Refusal) : Except Refusal State := do
  let _ ← state.settle
  throw answer

/-- A long option. -/
def State.long (verb : Verb) (state : State) (name : String) (attached : Option String) :
    Except Refusal State :=
  if name = "help" then
    match attached with
    | none => state.answer .help
    | some _ => .error .valueUnwanted
  else
    match verb.options.lookup name with
    | none => .error .unknownArgument
    | some place => do
      let draft ← state.settle
      match attached with
      | none => return { state with draft := draft, pending := .wanting place }
      | some value =>
        let draft ← draft.fill place value
        return { state with draft := draft, pending := .nothing }

/-- **One word** in front of any separator. -/
def State.take (verb : Verb) (state : State) (word : String) : Word → Except Refusal State
  | .separator => .ok state
  | .long name attached => state.long verb name attached
  | .short letters =>
    if state.isOpen verb ∧ looksNumeric letters then state.value verb word
    else if letters.head? = some 'h' then state.answer .help
    else .error .unknownArgument
  | .bare => state.value verb word

/-- The words of a verb; `apart` holds behind a separator. -/
def State.run (verb : Verb) (apart : Bool) (state : State) : List String → Except Refusal State
  | [] => .ok state
  | word :: rest =>
    if apart then do
      let state ← state.byItself verb word
      state.run verb true rest
    else do
      let look := Word.of word
      let state ← state.take verb word look
      state.run verb (look = .separator) rest

/-- The transfer of a draft. -/
def Draft.transfer (draft : Draft) : Except Refusal Transfer :=
  match draft.size with
  | none => .error .sizeMissing
  | some size => .ok ⟨size, draft.mimeType, draft.bandwidth, draft.latency⟩

/-- The command of a verb and its words. -/
def ofVerb (verb : Verb) (words : List String) : Except Refusal Command := do
  let state ← State.run verb false ⟨.blank, .nothing, false⟩ words
  let draft ← state.settle
  match verb with
  | .serve => return .serve draft.bind
  | .predict => return .predict (← draft.transfer)
  | .query => return .query (← draft.transfer) draft.url
  | .plan => return .plan (← draft.transfer)

/-! ## All words -/

/-- The word names something that help exists for. -/
def isKnown (word : String) : Bool := (Verb.of? word).isSome || word == "help"

/-- Help on at most one known word. -/
def helpOn : List String → Refusal
  | [] => .help
  | [word] => if isKnown word then .help else .unknownVerb
  | _ => .unknownVerb

/-- The first word behind a separator that stands in front of the verb. -/
def behindSeparator : List String → Refusal
  | [] => .nothingGiven
  | word :: _ => if isKnown word then .unknownArgument else .unknownVerb

/-- A word in the place of a verb that is none, and the words behind it. -/
def notVerb (rest : List String) : Word → Refusal
  | .separator => behindSeparator rest
  | .long name none =>
    if name = "help" then .help else if name = "version" then .version else .unknownArgument
  | .long name (some _) =>
    if name = "help" ∨ name = "version" then .valueUnwanted else .unknownArgument
  | .short letters =>
    if letters.head? = some 'h' then .help
    else if letters.head? = some 'V' then .version
    else .unknownArgument
  | .bare => .unknownVerb

/-- **The command of an argument list**, without the program's name. -/
def ofArguments : List String → Except Refusal Command
  | [] => .error .nothingGiven
  | word :: rest =>
    match Verb.of? word with
    | some verb => ofVerb verb rest
    | none => .error (if word = "help" then helpOn rest else notVerb rest (Word.of word))

end ChunkSizing.Command
