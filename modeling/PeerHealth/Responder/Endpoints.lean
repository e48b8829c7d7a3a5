import PeerHealth.Probe.Web
import PeerHealth.Responder.Target
import PeerHealth.Store.SelfRecord
import PeerHealth.Wire.Identity
import PeerHealth.Wire.Refusal

/-! The web endpoints: who the node is, and which peers it knows. -/

namespace PeerHealth.Responder

/-- A response with the headers that tell something. -/
structure WebResponse where
  code : UInt16
  contentType : Option String := none
  allow : Option String := none
  body : String := ""
deriving DecidableEq, Repr

/-- The path at which older peers ask who the node is. -/
def checkPath : String := "/api/check"

def jsonResponse (code : UInt16) (body : String) : WebResponse :=
  { code, contentType := some "application/json", body }

/-- The response that says why there is no answer. -/
def refuse (message : String) : WebResponse :=
  jsonResponse 500 (Wire.Refusal.toJson ⟨"error", message⟩)

def identityResponse (store : Store) : WebResponse :=
  match store.selfRecord with
  | .ok me => jsonResponse 200 (Wire.Document.ofHost me.host).toJson
  | .error .notFound => refuse "local identity not registered yet"
  | .error fault => refuse fault.message

def hostsResponse (store : Store) : WebResponse :=
  match store.hosts {} with
  | .ok hosts => jsonResponse 200 (Wire.Document.listToJson (hosts.map Wire.Document.ofHost))
  | .error fault => refuse fault.message

def endpoint? (path : String) : Option (Store → WebResponse) :=
  if path = Probe.Web.healthPath ∨ path = checkPath then some identityResponse
  else if path = Probe.Web.hostsPath then some hostsResponse
  else none

/-- The response to a request for a path. A request for the head of a response gets no body. -/
def respondAt (store : Store) (method path : String) : WebResponse :=
  match endpoint? path with
  | none => { code := 404 }
  | some answer =>
    if method = "GET" then answer store
    else if method = "HEAD" then { answer store with body := "" }
    else { code := 405, allow := some "GET,HEAD" }

/-- The response to a request with a target. -/
def respond (store : Store) (method target : String) : WebResponse :=
  match Target.path? target with
  | some path => respondAt store method path
  | none => { code := 400 }

end PeerHealth.Responder
