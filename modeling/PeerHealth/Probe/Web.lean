import PeerHealth.Probe.Outcome
import PeerHealth.Text.Blank
import PeerHealth.Wire.Identity
import PeerHealth.Wire.Refusal

/-! The web probe and the questions asked over it: who a peer is, and whom it knows. -/

namespace PeerHealth.Probe.Web

/-- The path at which a node says who it is. -/
def healthPath : String := "/api/health"

/-- The path at which a node says whom it knows. -/
def hostsPath : String := "/api/hosts"

structure Response where
  code : UInt16
  body : String
deriving DecidableEq, Repr

/-- How a request ends: in a complete response, or with the reason why there is none. -/
abbrev Answer := Except String Response

/-- The message in a body that says why there is no answer, unless it is empty. -/
def refusalMessage? (body : String) : Option String :=
  match Wire.Refusal.ofBytes? (Text.Utf8.encode body) with
  | .ok refusal => if refusal.message = "" then none else some refusal.message
  | .error _ => none

/-- The response, if there is one and it does not say that the request failed. -/
def accepted (answer : Answer) : Except Fault Response :=
  match answer with
  | .error reason => .error (.network reason)
  | .ok response =>
    if response.code < 400 then .ok response
    else .error (.status response.code (refusalMessage? response.body))

/-- The value that `read` finds in an accepted response from an address. -/
def asked {α : Type} (read : List UInt8 → Except Json.Problem α) (address : String)
    (answer : Answer) : Except Fault α := do
  let response ← accepted answer
  match read (Text.Utf8.encode response.body) with
  | .ok a => .ok a
  | .error _ => .error (.protocol ("invalid JSON from " ++ address))

/-- Who the peer at an address says it is; it must have a name. -/
def identity (address : String) (answer : Answer) : Except Fault Wire.Document := do
  let document ← asked Wire.Document.ofBytes? address answer
  if Text.isBlank document.hostname then .error (.protocol "identity without hostname")
  else .ok document

/-- Whom the peer at an address says it knows. -/
def knownHosts (address : String) (answer : Answer) : Except Fault (List Wire.Document) :=
  asked Wire.Document.listOfBytes? address answer

end PeerHealth.Probe.Web
