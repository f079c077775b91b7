import ImageBuild.Daemon.Message
import ImageBuild.Engine.Http.Body
import ImageBuild.Json.Record
/-!
# The interface of an engine

An engine is a daemon behind HTTP.  Requests and responses are values here, and an engine is a
function from one to the other with a state of its own.
-/

namespace ImageBuild.Engine

/-- The value of a query parameter. -/
inductive Param where
  | text (s : String)
  | table (entries : List (String × String))
  | filter (entries : List (String × List String))
  /-- The name of a session on this side. -/
  | session

/-- How a truth value is told in a query. -/
def Param.flag (b : Bool) : Param :=
  .text (if b then "true" else "false")

structure Request where
  method : String
  path : String
  query : List (String × Param) := []
  /-- The credentials for the registry of a push, or that there are none. -/
  registryAuth : Option (Option Registry.Credentials) := none
  /-- The credentials of all registries. -/
  registryConfig : Option Registry.CredentialTable := none
  /-- The context that is sent along. -/
  context : Option Context := none

/-- What an engine sends back: a head with a status, and then a body. -/
structure Response where
  status : Nat := 200
  body : List UInt8

/-- An exchange of a request for a response, which may break off. -/
abbrev Exchange (τ : Type) := Request → τ → Except EngineError Response × τ

/-- The status of a response after which another protocol is spoken. -/
def switching : Nat := 101

/-- Whether a response of this status is followed by another one. -/
def isInterim (status : Nat) : Bool :=
  100 ≤ status && status < 200 && status ≠ switching

/-- Whether a response of this status has no body, whatever its head says. -/
def isBare (status : Nat) : Bool :=
  status = switching || status = 204 || status = 304

/-- The answer to a request: the first response that is not interim. -/
structure Answer where
  status : Nat
  body : Body
deriving Repr, DecidableEq

namespace Answer

/-- Reads the answer from bytes the first of which is at `position`. -/
def read? (position : Nat) (bs : List UInt8) : Option Answer :=
  match _h : Head.read? bs with
  | none => none
  | some (head, rest) =>
    let position := position + (bs.length - rest.length)
    if isInterim head.status then read? position rest
    else if isBare head.status then some ⟨head.status, ⟨[], true⟩⟩
    else (Framing.ofHead? head).map fun framing => ⟨head.status, framing.body position rest⟩
termination_by bs.length
decreasing_by exact Head.length_of_read? _h

def isSuccess (a : Answer) : Bool :=
  (200 ≤ a.status && a.status < 300) || a.status = 304 || a.status = switching

/-- Reads the message of a refusal. -/
def messageReader : Json.Reader String :=
  .record [.required "message" .text fun message _ => message] ""

/-- The message in the body of an answer that refuses a request: the body itself, unless it is a value
with a message.  A body that breaks off within a value is an error of its own. -/
def refusalMessage (a : Answer) : Except EngineError String := do
  let content ← a.body.bytes
  if content.isEmpty then return ""
  let content := Text.Utf8.decodeLossy content
  match messageReader.readChars content with
  | .ok message => return message
  | .error .unfinished => throw .notJson
  | .error _ => return String.ofList content

/-- The error of an answer that refuses a request. -/
def refusal (a : Answer) : EngineError :=
  match a.refusalMessage with
  | .ok message => .response a.status message
  | .error e => e

end Answer

namespace Response

/-- The length of the head of a response, which tells the length of the body in decimal. -/
def headLength (r : Response) : Nat :=
  87 + (Nat.toDigits 10 r.body.length).length

/-- The answer that a response is, or that follows in its place, if it can be made out. -/
def answer? (r : Response) : Option Answer :=
  if r.status < 100 || 1000 ≤ r.status then none
  else if isInterim r.status then Answer.read? r.headLength r.body
  else if isBare r.status then some ⟨r.status, ⟨[], true⟩⟩
  else some ⟨r.status, ⟨Body.arrivals r.headLength r.body, true⟩⟩

/-- The body of the answer, unless it refuses the request. -/
def accepted (r : Response) : Except EngineError Body :=
  match r.answer? with
  | none => .error .transport
  | some a => if a.isSuccess then .ok a.body else .error a.refusal

end Response

/-- Reads a body that holds one value. -/
def readValue {α : Type} (reader : Json.Reader α) (body : Body) : Except EngineError α := do
  match reader.readBytes (← body.bytes) with
  | .ok a => return a
  | .error .unfinished => throw .notJson
  | .error _ => throw .wrongShape

end ImageBuild.Engine
