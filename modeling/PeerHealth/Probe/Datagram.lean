import PeerHealth.Probe.Outcome
import PeerHealth.Text.Quoted
import PeerHealth.Text.Utf8

/-! The datagram probe: a node sends a short message up to three times and waits each time for the
one right reply. -/

namespace PeerHealth.Probe.Datagram

/-- The message sent. -/
def ping : List UInt8 := Text.Utf8.encode "ping\n"

def pong : List UInt8 := Text.Utf8.encode "pong\n"

/-- How many times the message is sent. -/
def attempts : Nat := 3

def maxReply : Nat := 512

/-- Why no message can be sent to a peer at all. -/
inductive Unopened where
  /-- There is no port to send from. -/
  | unbound
  /-- The peer's address is not found in time. -/
  | late
  | unconnected
deriving DecidableEq, Repr

def Unopened.fault (timeout : Duration) : Unopened → Fault
  | .unbound => .network "failed to bind socket"
  | .late => .timedOut timeout
  | .unconnected => .network "failed to connect"

/-- What follows an attempt to send the message. -/
inductive Reaction where
  | unsent
  /-- No reply in time. -/
  | silence
  /-- Word that the peer does not take it. -/
  | refusal
  | reply (bytes : List UInt8)
deriving DecidableEq, Repr

/-- What follows each attempt, counted from zero. -/
abbrev Script := Nat → Reaction

/-- What a reaction says of the probe. -/
def judge (timeout : Duration) : Reaction → Except Fault Unit
  | .unsent => .error (.network "failed to send")
  | .silence => .error (.timedOut timeout)
  | .refusal => .error (.network "failed to recv")
  | .reply bytes =>
    let received := bytes.take maxReply
    if received = pong then .ok ()
    else .error (.protocol ("wrong response: " ++ Text.quoted (Text.Utf8.decodeLossy received)))

/-- Tries until a reaction is right, and at most once for each reaction of the list. The answer is
the last judgement, and how many tries there were. -/
def converse (timeout : Duration) (last : Except Fault Unit) :
    List Reaction → Except Fault Unit × Nat
  | [] => (last, 0)
  | r :: rs =>
    match judge timeout r with
    | .ok () => (.ok (), 1)
    | .error e =>
      let (result, tries) := converse timeout (.error e) rs
      (result, tries + 1)

def run (timeout : Duration) (script : Script) : Except Fault Unit × Nat :=
  converse timeout (.error (.timedOut timeout)) ((List.range attempts).map script)

end PeerHealth.Probe.Datagram
