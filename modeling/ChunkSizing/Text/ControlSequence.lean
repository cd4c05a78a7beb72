/-!
# ChunkSizing.Text.ControlSequence — text without what steers a terminal.

A message that repeats a text must not let it steer the terminal that the message is printed on.
Control sequences are left out of it, and so are the controls that are no white space.

A sequence begins with an escape character, and the character behind that decides how it goes on:
with parameters up to a letter, with a string, or not at all. It may be cut off by two controls, by
a new sequence or by the end of the text; what has been read of it stays left out.

Sequences are made of ASCII. A character beyond it is shown where no sequence is open; inside one
it is left out, and the sequence goes on behind it. Only a string looks at its bytes, for the one
that terminates it.
-/

namespace ChunkSizing.Text

/-! ## Sequences -/

/-- The sequence that is open. -/
inductive Sequence where
  | closed
  /-- Behind the escape character. -/
  | escape
  /-- Behind an escape and marks; one more character ends the sequence. -/
  | marks
  /-- Parameters and marks up to the first letter. -/
  | parameters
  /-- Behind the letter that opens a device's string: its parameters, marks or body follow. -/
  | device
  /-- The parameters of a device's string. -/
  | deviceParameters
  /-- The marks of a device's string. -/
  | deviceMarks
  /-- A string up to the terminating byte or the next escape. -/
  | string
  /-- A string up to a bell or the next escape. -/
  | command
deriving DecidableEq

/-- A control of ASCII. -/
def isControl (c : Char) : Bool := c.toNat < 32 || c.toNat == 127

/-- The controls that are white space; they are shown. -/
def isBlankControl (c : Char) : Bool := c == '\t' || c == '\n' || c == '\x0c' || c == '\r'

/-- The UTF-8 form of the character holds the byte that terminates a string. -/
def holdsTerminator (c : Char) : Bool := (String.utf8EncodeChar c).contains 0x9c

/-- The sequence that a character behind the escape opens, or closes at once. -/
def Sequence.ofSecond (c : Char) : Sequence :=
  if c < '0' then marks
  else if c = '[' then parameters
  else if c = ']' then command
  else if c = 'P' then device
  else if c = 'X' ∨ c = '^' ∨ c = '_' then string
  else closed

/-- **Behind a printable character of ASCII.** The marks are the characters before `0`, parameters
are made of those from there to `?`, and the letters stand above. What does not fit the head of a
device's string belongs to its body. -/
def Sequence.afterPrintable? (c : Char) : Sequence → Option Sequence
  | closed => none
  | escape => some (ofSecond c)
  | marks => some (if c < '0' then marks else closed)
  | parameters => some (if c < '@' then parameters else closed)
  | device => some (if c < '0' then deviceMarks else if c < '@' then deviceParameters else string)
  | deviceParameters =>
    some (if c < '0' then deviceMarks else if c < '<' then deviceParameters else string)
  | deviceMarks => some (if c < '0' then deviceMarks else string)
  | string => some string
  | command => some command

/-- **Behind a control that cuts no sequence off.** White space is shown, except in strings, and
breaks the sequence off; any other control leaves no trace. -/
def Sequence.afterControl? (c : Char) : Sequence → Option Sequence
  | command => some (if c = '\x07' then closed else command)
  | device => some device
  | deviceParameters => some deviceParameters
  | deviceMarks => some deviceMarks
  | string => some string
  | other => if isBlankControl c then none else some other

/-- **Behind a character beyond ASCII.** It is shown where no sequence is open. -/
def Sequence.afterWide? (c : Char) : Sequence → Option Sequence
  | closed => none
  | string => some (if holdsTerminator c then closed else string)
  | other => some other

/-- **One character.** It is shown, and then no sequence is open, or it is left out and this
sequence is open behind it. -/
def Sequence.next? (sequence : Sequence) (c : Char) : Option Sequence :=
  if c = '\x1b' then some escape
  else if c = '\x18' ∨ c = '\x1a' then some closed
  else if 128 ≤ c.toNat then sequence.afterWide? c
  else if isControl c then sequence.afterControl? c
  else sequence.afterPrintable? c

/-! ## Whole texts -/

/-- What is shown of a text that goes on inside a sequence. -/
def shownFrom (sequence : Sequence) : List Char → List Char
  | [] => []
  | c :: rest =>
    match sequence.next? c with
    | none => c :: shownFrom .closed rest
    | some next => shownFrom next rest

/-- **A text without control sequences.** -/
def withoutSequences (text : List Char) : List Char := shownFrom .closed text

-- A colour, a title that a bell ends, a link that an escape ends, and a character set.
example : withoutSequences "\x1b[38;5;1mq\x1b[m".toList = "q".toList := by decide +kernel
example : withoutSequences "\x1b]0;t\x075".toList = "5".toList := by decide +kernel
example : withoutSequences "\x1b]8;;u\x1b\\l".toList = "l".toList := by decide +kernel
example : withoutSequences "\x1b(B7z".toList = "7z".toList := by decide +kernel

-- White space breaks a sequence off; a control that is none leaves no trace.
example : withoutSequences "\x1b[3\t1m".toList = "\t1m".toList := by decide +kernel
example : withoutSequences "é\x08é\x7f".toList = "éé".toList := by decide +kernel

-- Beyond ASCII a character is left out of an open sequence, which goes on behind it.
example : withoutSequences "\x1b[3é1mé".toList = "é".toList := by decide +kernel
example : withoutSequences "\x1b]é\x07x".toList = "x".toList := by decide +kernel

-- It terminates a string by one of its bytes, but not while a device's string has its parameters.
example : withoutSequences "\x1b_é✓x".toList = "x".toList := by decide +kernel
example : withoutSequences "\x1bP1qÜx".toList = "x".toList := by decide +kernel
example : withoutSequences "\x1bP1Üqx".toList = [] := by decide +kernel

end ChunkSizing.Text
