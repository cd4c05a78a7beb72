import ChunkSizing.Http.Message
import ChunkSizing.Http.Status
import ChunkSizing.Transfer.Format

/-!
# ChunkSizing.Remote — advice from another advisor.

A remote advisor is known by the URL of its endpoint. Asking it is one request; how the request
travels is left to a transport, which gives the final response or none. A response is taken only if
its status reports success, its whole body is advice, and the advice is usable.
-/

namespace ChunkSizing

open Http

/-- Carries a request to a server, and its response back if there is one in time. -/
abbrev Transport := Request → Option Response

/-- Nothing gets through. -/
def Transport.down : Transport := fun _ => none

/-- An advisor that is asked over HTTP. -/
structure Remote where
  endpoint : String
deriving DecidableEq

namespace Remote

/-- A URL without the slashes at its end. -/
def withoutTrailingSlashes (url : List Char) : List Char :=
  (url.reverse.dropWhile (· == '/')).reverse

/-- **The advisor at a base URL.** Slashes at the end of the base do not matter; nothing else about
it is looked at. -/
def ofBaseUrl (url : String) : Remote :=
  ⟨String.ofList (withoutTrailingSlashes url.toList ++ "/predict-chunk-size".toList)⟩

/-! ## Faults -/

/-- Why a remote advisor gave no advice. -/
inductive Fault where
  | unsent (endpoint : String)
  | badStatus (status : Nat)
  | unreadable (refusal : Json.Refusal)
  | unusable (advice : UnusableAdvice)
deriving DecidableEq

/-- The wording of each fault. -/
def Fault.message : Fault → String
  | unsent endpoint => "POST " ++ endpoint
  | badStatus status => "optimizer service returned status " ++ Status.describe status
  | unreadable _ => "decode optimizer response"
  | unusable advice => advice.message

/-- What lies under a fault, the nearest first. -/
def Fault.causes : Fault → List String
  | unreadable refusal => ["error decoding response body", refusal.message]
  | unsent _ | badStatus _ | unusable _ => []

/-! ## Asking -/

/-- **The request for advice on a transfer.** -/
def request (remote : Remote) (transfer : Transfer) : Request where
  method := "POST"
  target := remote.endpoint
  headers := [("content-type", Utf8.ofString "application/json")]
  body := Utf8.encode (transfer.toDocument.chars .compact)

/-- **The advice in a response.** The status is looked at first, then the body, then the value. -/
def receive (response : Response) : Except Fault Advice :=
  if !Status.isSuccess response.status then .error (.badStatus response.status)
  else
    match Advice.format.parse response.body with
    | .error refusal => .error (.unreadable refusal)
    | .ok advice =>
      match advice.check with
      | .error unusable => .error (.unusable unusable)
      | .ok () => .ok advice

/-- **Advice on a transfer**, asked over a transport. -/
def advise (remote : Remote) (transport : Transport) (transfer : Transfer) : Except Fault Advice :=
  match transport (remote.request transfer) with
  | none => .error (.unsent remote.endpoint)
  | some response => receive response

/-- The advice in whole bytes. -/
def adviseBytes (remote : Remote) (transport : Transport) (transfer : Transfer) :
    Except Fault UInt64 :=
  (remote.advise transport transfer).map fun advice => chunkBytes advice.chunkSize

end Remote

end ChunkSizing
