import ChunkSizing.Decimal.Layout
import ChunkSizing.Text.Quoted

/-!
# ChunkSizing.Json.Fault — why JSON is refused, and where.

A reader stops at the first fault, going from left to right. A fault is a cause together with the
number of bytes that lie behind its position; counting from the end lets a reader that only sees the
rest of its input name a position in the whole. `Refusal` is the fault as it is reported: the same
cause at a line and a column.

Causes fall into three categories. A *data* fault is a well-formed value of the wrong kind, a
*syntax* fault is text that no JSON value begins with, and *eof* is a beginning that was cut off.
-/

namespace ChunkSizing.Json

/-- JSON numbers are written positionally from `10 ^ -5` up to sixteen digits before the point.
Whole numbers keep `.0`, and of two equally near decimals the even one is written. -/
def numberLayout : Layout := ⟨fun leading => -5 ≤ leading ∧ leading ≤ 15, true, .toEven⟩

-- Positional on both sides of one, an exponent mark beyond, and a zero that keeps its sign.
example : numberLayout.text 8 = "8.0".toList ∧
    numberLayout.text (.ofDecimal false ⟨1, -5⟩) = "0.00001".toList := by decide +kernel

example : numberLayout.text (.ofDecimal false ⟨1, -6⟩) = "1e-6".toList ∧
    numberLayout.text (.ofDecimal true ⟨125, 20⟩) = "-1.25e+22".toList := by decide +kernel

example : numberLayout.text (.zero true) = "-0.0".toList := by decide +kernel

/-! ## Causes -/

/-- What the input left unfinished when it ended. -/
inductive Unfinished where
  | value
  | text
  | list
  | object
deriving DecidableEq

/-- A value that was found where another kind was wanted. -/
inductive Found where
  | null
  | boolean (value : Bool)
  | integer (value : Int)
  | number (value : Binary64)
  | text (value : String)
  | list
  | object
deriving DecidableEq

/-- What kind of value was wanted. -/
inductive Wanted where
  | integer
  | number
  | text
  | record (title : String)
deriving DecidableEq

/-- The cause of a fault. -/
inductive Cause where
  | ended (unfinished : Unfinished)
  | expectedValue
  | expectedWord
  | invalidNumber
  | numberOutOfRange
  | controlCharacter
  | invalidEscape
  | loneSurrogate
  | endedSurrogatePair
  | invalidText
  | keyNotText
  | expectedColon
  | expectedListCommaOrEnd
  | expectedObjectCommaOrEnd
  | trailingComma
  | trailingCharacters
  | wrongKind (found : Found) (wanted : Wanted)
  | outOfRange (value : Int) (wanted : Wanted)
  | missingField (name : String)
  | duplicateField (name : String)
  | wrongLength (length : Nat) (title : String) (fields : Nat)
deriving DecidableEq

/-- The three kinds of causes. -/
inductive Category where
  | data
  | syntactic
  | eof
deriving DecidableEq

/-- **Which kind of cause.** Data faults concern the value that was read, eof faults an input that
ended; everything else is a fault of form. -/
def Cause.category : Cause → Category
  | ended _ => .eof
  | wrongKind .. | outOfRange .. | missingField _ | duplicateField _ | wrongLength .. => .data
  | _ => .syntactic

/-! ## Wording -/

/-- How an unfinished part is named. -/
def Unfinished.message : Unfinished → String
  | value => "a value"
  | text => "a string"
  | list => "a list"
  | object => "an object"

/-- How a value that was not wanted is named; texts are shown between quotes. -/
def Found.message : Found → String
  | null => "null"
  | boolean value => "boolean `" ++ (if value then "true" else "false") ++ "`"
  | integer value => "integer `" ++ value.repr ++ "`"
  | number value => "floating point `" ++ String.ofList (numberLayout.text value) ++ "`"
  | text value => "string " ++ Text.quoted value
  | list => "sequence"
  | object => "map"

/-- How the wanted kind is named. -/
def Wanted.message : Wanted → String
  | integer => "i64"
  | number => "f64"
  | text => "a string"
  | record title => "struct " ++ title

/-- **The wording of a cause**, without its position. -/
def Cause.message : Cause → String
  | ended unfinished => "EOF while parsing " ++ unfinished.message
  | expectedValue => "expected value"
  | expectedWord => "expected ident"
  | invalidNumber => "invalid number"
  | numberOutOfRange => "number out of range"
  | controlCharacter => "control character (\\u0000-\\u001F) found while parsing a string"
  | invalidEscape => "invalid escape"
  | loneSurrogate => "lone leading surrogate in hex escape"
  | endedSurrogatePair => "unexpected end of hex escape"
  | invalidText => "invalid unicode code point"
  | keyNotText => "key must be a string"
  | expectedColon => "expected `:`"
  | expectedListCommaOrEnd => "expected `,` or `]`"
  | expectedObjectCommaOrEnd => "expected `,` or `\x7d`"
  | trailingComma => "trailing comma"
  | trailingCharacters => "trailing characters"
  | wrongKind found wanted => "invalid type: " ++ found.message ++ ", expected " ++ wanted.message
  | outOfRange value wanted =>
    "invalid value: integer `" ++ value.repr ++ "`, expected " ++ wanted.message
  | missingField name => "missing field `" ++ name ++ "`"
  | duplicateField name => "duplicate field `" ++ name ++ "`"
  | wrongLength length title fields =>
    "invalid length " ++ length.repr ++ ", expected struct " ++ title ++ " with " ++ fields.repr ++
      if fields = 1 then " element" else " elements"

/-! ## Places -/

/-- The member or element of the outermost value in which reading stood. -/
inductive Site where
  | member (key : String)
  | element (index : Nat)
deriving DecidableEq

/-- A member is named by its key, an element by its index in brackets. -/
def Site.message : Site → String
  | member key => key
  | element index => "[" ++ index.repr ++ "]"

/-- A cause with the number of input bytes behind its position, and the site if it lies in one. -/
structure Fault where
  cause : Cause
  unread : Nat
  site : Option Site
deriving DecidableEq

/-- The same fault, placed in a member or an element. -/
def Fault.within (site : Site) (fault : Fault) : Fault := { fault with site := some site }

/-- A fault as it is reported. -/
structure Refusal where
  cause : Cause
  line : Nat
  column : Nat
  site : Option Site
deriving DecidableEq

/-- **The position of a fault.** Lines count from one; the column is the number of bytes before the
position since the last line feed. -/
def Fault.locate (input : List UInt8) (fault : Fault) : Refusal :=
  let before := input.take (input.length - fault.unread)
  { cause := fault.cause
    line := before.count 10 + 1
    column := (before.reverse.takeWhile (· != 10)).length
    site := fault.site }

/-- The wording of a refusal: the cause and its position. -/
def Refusal.message (refusal : Refusal) : String :=
  refusal.cause.message ++ " at line " ++ refusal.line.repr ++ " column " ++ refusal.column.repr

end ChunkSizing.Json
