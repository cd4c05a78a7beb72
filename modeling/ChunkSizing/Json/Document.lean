import ChunkSizing.Json.Fault

/-!
# ChunkSizing.Json.Document — JSON that is written.

What is written is a record of atoms, or a table of such records. A record keeps the order of its
members. The same document can be set compactly, without white space, or one item to a line; the two
differ in white space between tokens only.
-/

namespace ChunkSizing.Json

/-- A value without parts. -/
inductive Atom where
  | text (value : String)
  | integer (value : Int)
  | number (value : Binary64)
deriving DecidableEq

/-- Named atoms in their order. -/
abbrev Members := List (String × Atom)

/-- A document. -/
inductive Document where
  | record (members : Members)
  | table (rows : List Members)
deriving DecidableEq

/-! ## Strings -/

/-- The lower-case hex digit of a value below sixteen. -/
def hexDigit (n : Nat) : Char := if n < 10 then Char.ofNat (48 + n) else Char.ofNat (87 + n)

/-- **How a character stands inside a string.** Only the quote, the backslash and the controls below
`0x20` are escaped. -/
def escaped (c : Char) : List Char :=
  match c with
  | '"' => ['\\', '"']
  | '\\' => ['\\', '\\']
  | '\x08' => ['\\', 'b']
  | '\x0c' => ['\\', 'f']
  | '\n' => ['\\', 'n']
  | '\r' => ['\\', 'r']
  | '\t' => ['\\', 't']
  | c =>
    if c.toNat < 32 then ['\\', 'u', '0', '0', hexDigit (c.toNat / 16), hexDigit (c.toNat % 16)]
    else [c]

/-- A string between its quotes. -/
def quote (text : List Char) : List Char := '"' :: text.flatMap escaped ++ ['"']

/-! ## Atoms -/

/-- The digits of an integer, behind a minus if it is negative. -/
def integerDigits (value : Int) : List Char :=
  (if value < 0 then ['-'] else []) ++ Nat.toDigits 10 value.natAbs

/-- **The text of an atom.** A number that is not finite has none of its own and becomes `null`. -/
def Atom.chars : Atom → List Char
  | text value => quote value.toList
  | integer value => integerDigits value
  | number value => if value.isFinite then numberLayout.text value else ['n', 'u', 'l', 'l']

/-! ## Documents -/

/-- Whether items stand on lines of their own. -/
inductive Spacing where
  | compact
  | pretty
deriving DecidableEq

/-- The start of a line that is indented by two spaces for each level. -/
def Spacing.line : Spacing → Nat → List Char
  | compact, _ => []
  | pretty, depth => '\n' :: List.replicate (2 * depth) ' '

/-- What stands between a key and its value. -/
def Spacing.colon : Spacing → List Char
  | compact => [':']
  | pretty => [':', ' ']

/-- **Items between brackets**, with commas between them. An empty block is its two brackets. -/
def Spacing.block (spacing : Spacing) (depth : Nat) (opening closing : Char)
    (items : List (List Char)) : List Char :=
  if items.isEmpty then [opening, closing]
  else
    opening :: List.intercalate [','] (items.map fun item => spacing.line (depth + 1) ++ item) ++
      spacing.line depth ++ [closing]

/-- A record as text. -/
def Spacing.record (spacing : Spacing) (depth : Nat) (members : Members) : List Char :=
  spacing.block depth '\x7b' '\x7d'
    (members.map fun member => quote member.1.toList ++ spacing.colon ++ member.2.chars)

/-- **The text of a document**, character by character. -/
def Document.chars (spacing : Spacing) : Document → List Char
  | record members => spacing.record 0 members
  | table rows => spacing.block 0 '[' ']' (rows.map (spacing.record 1))

/-- A document as a string. -/
def Document.render (spacing : Spacing) (document : Document) : String :=
  String.ofList (document.chars spacing)

-- A record has a line for each member; an empty table is its two brackets.
example : Document.render .pretty (.record [("a", .integer (-5)), ("b", .text "\x07\"")]) =
    "\x7b\n  \"a\": -5,\n  \"b\": \"\\u0007\\\"\"\n\x7d" := by decide +kernel

example : Document.render .pretty (.table []) = "[]" := by decide +kernel

end ChunkSizing.Json
