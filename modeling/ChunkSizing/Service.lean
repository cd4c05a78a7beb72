import ChunkSizing.Http.MediaType
import ChunkSizing.Http.Message
import ChunkSizing.Rules
import ChunkSizing.Transfer.Format

/-!
# ChunkSizing.Service — advice over HTTP.

The service answers two paths. One tells that it is alive, the other takes a transfer in JSON and
answers with advice. A response is a function of the estimator and the request; nothing is kept
between requests.

A request for advice is checked in a fixed order: the media type, then the length of the body, then
the transfer at the front of the body. What stands behind the transfer is not looked at.
-/

namespace ChunkSizing.Service

open Http

/-! ## Routes -/

/-- What the service answers. -/
inductive Route where
  | health
  | advice
deriving DecidableEq

/-- The route of a path; paths match exactly. -/
def Route.of? (path : String) : Option Route :=
  if path = "/health" then some .health
  else if path = "/predict-chunk-size" then some .advice
  else none

/-- The methods of a route. -/
def Route.methods : Route → List String
  | health => ["GET", "HEAD"]
  | advice => ["POST"]

/-! ## Rejected requests -/

/-- The longest body that is taken, in bytes. -/
def bodyLimit : Nat := 2097152

/-- Why a request for advice is rejected. -/
inductive Rejection where
  | notJson
  | bodyTooLong
  | unreadable (refusal : Json.Refusal)
deriving DecidableEq

/-- **The status of a rejection.** A body of the wrong content is told apart from one of the wrong
form. -/
def Rejection.status : Rejection → Nat
  | notJson => 415
  | bodyTooLong => 413
  | unreadable refusal => if refusal.cause.category = .data then 422 else 400

/-- A refusal with the site at which reading stood. -/
def sited (refusal : Json.Refusal) : String :=
  match refusal.site with
  | some site => site.message ++ ": " ++ refusal.message
  | none => refusal.message

/-- The wording of a rejection. -/
def Rejection.message : Rejection → String
  | notJson => "Expected request with `Content-Type: application/json`"
  | bodyTooLong => "Failed to buffer the request body: length limit exceeded"
  | unreadable refusal =>
    (if refusal.cause.category = .data then
      "Failed to deserialize the JSON body into the target type: "
    else "Failed to parse the request body as JSON: ") ++ sited refusal

/-- The document of a rejection. -/
def Rejection.toDocument (rejection : Rejection) : Json.Document :=
  .record [("error", .text ("invalid request: " ++ rejection.message))]

/-- The request names JSON as the type of its body. -/
def hasJson (request : Request) : Bool :=
  match request.header? "content-type" with
  | some value => MediaType.namesJson value
  | none => false

/-- **The transfer of a request**, or why there is none. -/
def transferOf (request : Request) : Except Rejection Transfer :=
  if !hasJson request then .error .notJson
  else if bodyLimit < request.body.length then .error .bodyTooLong
  else
    match Transfer.format.parseFront request.body with
    | .ok transfer => .ok transfer
    | .error refusal => .error (.unreadable refusal)

/-! ## Responses -/

/-- A response without a body. -/
def emptyResponse (status : Nat) (allow : Option String) : Response := ⟨status, none, allow, []⟩

/-- A response of compact JSON. -/
def jsonResponse (status : Nat) (document : Json.Document) : Response :=
  ⟨status, some "application/json", none, Utf8.encode (document.chars .compact)⟩

/-- The answer to a request for advice. -/
def adviceResponse (estimator : Estimator) (request : Request) : Response :=
  match transferOf request with
  | .ok transfer => jsonResponse 200 (estimator.advise transfer).toDocument
  | .error rejection => jsonResponse rejection.status rejection.toDocument

/-- The answer to a check of health; a request for the head gets no body. -/
def healthResponse (request : Request) : Response :=
  ⟨200, some "text/plain; charset=utf-8", none,
    if request.method = "HEAD" then [] else Utf8.ofString "ok"⟩

/-- **The response to a request.** The path decides first, then the method. -/
def respond (estimator : Estimator) (request : Request) : Response :=
  match Route.of? request.path with
  | none => emptyResponse 404 none
  | some route =>
    if request.method ∉ route.methods then
      emptyResponse 405 (some (String.intercalate "," route.methods))
    else
      match route with
      | .health => healthResponse request
      | .advice => adviceResponse estimator request

end ChunkSizing.Service
