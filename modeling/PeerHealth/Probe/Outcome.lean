import PeerHealth.Number.Decimal
import PeerHealth.Registry.Check

/-! What a probe of a peer comes to, and how its failures are classified. -/

namespace PeerHealth.Probe

/-- Why a probe failed. -/
inductive Fault where
  | timedOut (after : Duration)
  | network (reason : String)
  /-- The peer answered, with a status that says it failed. -/
  | status (code : UInt16) (message : Option String)
  | protocol (reason : String)
  /-- This node cannot make the probe. -/
  | unsupported
deriving DecidableEq, Repr

def Fault.message : Fault → String
  | .timedOut after => "probe timed out after " ++ after.render
  | .network reason => "network error: " ++ reason
  | .status code _ => "bad status response: " ++ String.ofList (Number.digits code.toNat)
  | .protocol reason => "protocol error: " ++ reason
  | .unsupported => "unsupported"

/-- The code of a success that has none of its own. -/
def codeOk : UInt16 := 200

/-- The code of a request that got no response. -/
def codeNoResponse : UInt16 := 408

/-- The code of any other failure. -/
def codeFailed : UInt16 := 500

/-- The code of a probe that this node cannot make. -/
def codeUnsupported : UInt16 := 501

/-- What a probe came to. -/
structure Outcome where
  status : Status
  code : UInt16
  latency : Duration
  body : Option String
  error : Option String
deriving DecidableEq, Repr

namespace Outcome

def success (code : UInt16) (latency : Duration) (body : Option String) : Outcome :=
  { status := .success, code, latency, body, error := none }

/-- A failed probe. A peer's own message goes before the wording of the fault. -/
def failure (fault : Fault) (latency : Duration) : Outcome :=
  let (status, code, error) : Status × UInt16 × String := match fault with
    | .unsupported => (.unknown, codeUnsupported, fault.message)
    | .status code message => (.error, code, message.getD fault.message)
    | _ => (.error, codeFailed, fault.message)
  { status, code, latency, body := none, error := some error }

def toResult (o : Outcome) (network : Network) (protocol : Protocol) : CheckResult :=
  { network, protocol, status := o.status, code := o.code, latency := o.latency, body := o.body
    error := o.error }

end Outcome
end PeerHealth.Probe
