/-!
# ChunkSizing.Http.Message — requests and responses.

What the service and its callers exchange, reduced to what either of them looks at. Header values
and bodies are bytes; nothing says that they are text.
-/

namespace ChunkSizing.Http

/-- A request. The target is a path with an optional query, or a whole URL. -/
structure Request where
  method : String
  target : String
  /-- Names and values, in the order in which they were sent. -/
  headers : List (String × List UInt8)
  body : List UInt8
deriving DecidableEq

/-- A response, with the two headers that the service sets. -/
structure Response where
  status : Nat
  contentType : Option String
  allow : Option String
  body : List UInt8
deriving DecidableEq

namespace Request

/-- The value of the first header of a name, which is given in lower case; the case of a header's
name does not matter. -/
def header? (request : Request) (name : String) : Option (List UInt8) :=
  (request.headers.find? fun header => header.1.map Char.toLower == name).map Prod.snd

/-- What follows `://`, if that occurs. -/
def afterScheme? : List Char → Option (List Char)
  | [] => none
  | ':' :: '/' :: '/' :: rest => some rest
  | _ :: rest => afterScheme? rest

/-- Where a host ends. -/
def endsHost (c : Char) : Bool := c == '/' || c == '?' || c == '#'

/-- A target without scheme and host. -/
def withoutHost (target : List Char) : List Char :=
  if target.head? = some '/' then target
  else
    match afterScheme? target with
    | some rest => rest.dropWhile fun c => !endsHost c
    | none => target

/-- **The path of a request.** Scheme, host, query and fragment do not belong to it, and the empty
path is the root. Nothing is decoded. -/
def path (request : Request) : String :=
  match (withoutHost request.target.toList).takeWhile fun c => c != '?' && c != '#' with
  | [] => "/"
  | path => String.ofList path

end Request

end ChunkSizing.Http
