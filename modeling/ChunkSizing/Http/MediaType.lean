/-!
# ChunkSizing.Http.MediaType — what a body is said to be.

A media type is two tokens with a slash between them, and parameters behind semicolons. A `+` in the
second token divides it into the subtype and a suffix that names the syntax. The parameters are
checked for form by a machine of one state per character and are otherwise ignored.
-/

namespace ChunkSizing.Http

/-- A media type; letters are as they were written. -/
structure MediaType where
  type : List Char
  subtype : List Char
  suffix : Option (List Char)
deriving DecidableEq

namespace MediaType

/-- A character of a token. -/
def isToken (c : Char) : Bool :=
  c.isAlphanum || "!#$%&'*+-.^_`|~".toList.contains c

/-! ## Parameters -/

/-- Where the reading of parameters stands. -/
inductive Place where
  /-- Behind a semicolon. -/
  | start
  | name
  /-- Behind an equals sign. -/
  | valueStart
  | value
  /-- Behind an opening quote. -/
  | quotedStart
  | quoted
  /-- Behind a closing quote. -/
  | closed
deriving DecidableEq

/-- A character that may stand between quotes. -/
def isQuotable (c : Char) : Bool := 31 < c.toNat && c.toNat != 127

/-- **One character of the parameters.** Spaces may follow a semicolon or a closing quote, and a
quoted value has at least one character, which may be a quote. -/
def Place.step (place : Place) (c : Char) : Option Place :=
  match place with
  | start => if c = ' ' then some start else if isToken c then some name else none
  | name => if c = '=' then some valueStart else if isToken c then some name else none
  | valueStart => if c = '"' then some quotedStart else if isToken c then some value else none
  | value => if c = ';' then some start else if isToken c then some value else none
  | quotedStart => if isQuotable c then some quoted else none
  | quoted => if c = '"' then some closed else if isQuotable c then some quoted else none
  | closed => if c = ';' then some start else if c = ' ' then some closed else none

/-- Parameters may end after a semicolon, an equals sign or a value. -/
def Place.isFinal : Place → Bool
  | start | valueStart | value | closed => true
  | name | quotedStart | quoted => false

/-- Parameters of good form, from behind the first semicolon. -/
def areParameters (text : List Char) : Bool :=
  match text.foldlM Place.step .start with
  | some place => place.isFinal
  | none => false

/-! ## Types -/

/-- Divides at the last `+` that is not the first character. -/
def divide (token : List Char) : List Char × Option (List Char) :=
  let behind := token.reverse.takeWhile (· != '+')
  match token.reverse.dropWhile (· != '+') with
  | _ :: before :: more => ((before :: more).reverse, some behind.reverse)
  | _ => (token, none)

/-- **A media type from its text.** -/
def parse? (text : List Char) : Option MediaType :=
  let essence := text.takeWhile (· != ';')
  let type := essence.takeWhile (· != '/')
  match essence.dropWhile (· != '/'), text.dropWhile (· != ';') with
  | _ :: token, parameters =>
    if type ≠ [] ∧ type.all isToken ∧ token ≠ [] ∧ token.all isToken ∧
        areParameters parameters.tail then
      let (subtype, suffix) := divide token
      some ⟨type, subtype, suffix⟩
    else none
  | [], _ => none

/-- The same letters in lower case. -/
def lower (text : List Char) : List Char := text.map Char.toLower

/-- **JSON**: the application type of that name, or one that carries it as a suffix. -/
def isJson (media : MediaType) : Bool :=
  lower media.type == "application".toList &&
    (lower media.subtype == "json".toList || media.suffix.map lower == some "json".toList)

/-- A header value as text: printable ASCII and tabs. -/
def headerText? (value : List UInt8) : Option (List Char) :=
  if value.all fun b => b == 9 || (32 ≤ b && b < 127) then
    some (value.map fun b => Char.ofNat b.toNat)
  else none

/-- The header value names a media type that is JSON. -/
def namesJson (value : List UInt8) : Bool :=
  match (headerText? value).bind parse? with
  | some media => media.isJson
  | none => false

end MediaType

end ChunkSizing.Http
