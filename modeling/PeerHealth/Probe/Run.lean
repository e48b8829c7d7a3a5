import PeerHealth.Address.Literal
import PeerHealth.Probe.Datagram
import PeerHealth.Probe.Line
import PeerHealth.Probe.Web

/-! Probing a peer over each protocol. How peers behave is a parameter: the network tells what
becomes of each request, connection and message. -/

namespace PeerHealth.Probe

/-- Why there is no reply to an echo request. -/
inductive Unanswered where
  /-- This node cannot send one. -/
  | unsupported
  | timedOut (after : Duration)
  | network (reason : String)
deriving DecidableEq, Repr

def Unanswered.fault : Unanswered → Fault
  | .unsupported => .unsupported
  | .timedOut after => .timedOut after
  | .network reason => .network reason

/-- Sends an echo request to an address, within a time, and tells how long the reply took. -/
abbrev Pinger := Address.Literal → Duration → Except Unanswered Duration

def Pinger.none : Pinger := fun _ _ => .error .unsupported

/-- Why there is no address behind a text. -/
inductive Unresolved where
  /-- It is not found in time. -/
  | late
  /-- The name is not known. -/
  | failed
  /-- The name is known, but of no address. -/
  | empty
deriving DecidableEq, Repr

def Unresolved.fault (timeout : Duration) (address : String) : Unresolved → Fault
  | .late => .timedOut timeout
  | .failed => .network "DNS resolution failed"
  | .empty => .network ("No addresses found for " ++ address)

/-- How peers behave, by address and port. -/
structure Net where
  /-- What becomes of a request for a path. -/
  web : String → UInt16 → String → Web.Answer
  /-- What becomes of a connection on which a line is sent. -/
  line : String → UInt16 → List UInt8 → Line.Answer
  /-- What follows each message to a peer, or why none can be sent. -/
  datagram : String → UInt16 → Except Datagram.Unopened Datagram.Script
  /-- The address behind a text that is none. -/
  lookup : String → Except Unresolved Address.Literal
  /-- How long it takes to come from a text to the address. -/
  lookupTime : String → Duration
  /-- How long a probe of an address takes. -/
  latency : Protocol → String → Duration

/-- A network on which no peer can be reached and no name is known. -/
def Net.unconnected : Net where
  web := fun _ _ _ => .error "no connection"
  line := fun _ _ _ => .refused
  datagram := fun _ _ => .error .unconnected
  lookup := fun _ => .error .failed
  lookupTime := fun _ => ⟨0⟩
  latency := fun _ _ => ⟨0⟩

/-- A node that probes others. -/
structure Prober where
  /-- The port at which peers answer requests. -/
  webPort : UInt16
  timeout : Duration
  hostname : String
  pinger : Pinger
  net : Net

namespace Prober

/-- The address that a text is, or that stands behind it. -/
def resolve (p : Prober) (address : String) : Except Fault Address.Literal :=
  match Address.Literal.parse? address with
  | some ip => .ok ip
  | none => (p.net.lookup address).mapError (Unresolved.fault p.timeout address)

/-- The successful end of a probe, or why it failed. -/
def attempt (p : Prober) (protocol : Protocol) (address : String) (port : UInt16) :
    Except Fault Outcome :=
  let latency := p.net.latency protocol address
  match protocol with
  | .http => do
    let response ← Web.accepted (p.net.web address p.webPort Web.healthPath)
    return .success response.code latency (some response.body)
  | .tcp => do
    let reply ← Line.run p.timeout (p.net.line address port (Line.greeting p.hostname))
    return .success codeOk latency (some reply)
  | .udp => do
    let script ← (p.net.datagram address port).mapError (Datagram.Unopened.fault p.timeout)
    (Datagram.run p.timeout script).1
    return .success codeOk latency none
  | .icmp => do
    let ip ← p.resolve address
    -- the search for the address and the request have one time limit together
    let left := p.timeout.minus (p.net.lookupTime address)
    let roundTrip ← (p.pinger ip left).mapError Unanswered.fault
    return .success codeOk roundTrip none

/-- Probes an address. A web request that got no response has a code of its own. -/
def probe (p : Prober) (protocol : Protocol) (address : String) (port : UInt16) : Outcome :=
  match p.attempt protocol address port with
  | .ok outcome => outcome
  | .error fault =>
    let outcome := Outcome.failure fault (p.net.latency protocol address)
    match protocol, fault with
    | .http, .status _ _ => outcome
    | .http, _ => { outcome with code := codeNoResponse }
    | _, _ => outcome

/-- Asks the peer at an address who it is. -/
def identity (p : Prober) (address : String) : Except Fault Wire.Document :=
  Web.identity address (p.net.web address p.webPort Web.healthPath)

/-- Asks the peer at an address whom it knows. -/
def knownHosts (p : Prober) (address : String) : Except Fault (List Wire.Document) :=
  Web.knownHosts address (p.net.web address p.webPort Web.hostsPath)

end Prober
end PeerHealth.Probe
