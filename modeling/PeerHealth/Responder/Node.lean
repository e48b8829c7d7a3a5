import PeerHealth.Probe.Run
import PeerHealth.Responder.Datagrams
import PeerHealth.Responder.Endpoints
import PeerHealth.Responder.Lines

/-! How a node behaves towards those that probe it. -/

namespace PeerHealth.Responder

/-- The node's answer to a request for a path. -/
def webAnswer (store : Store) (path : String) : Probe.Web.Answer :=
  let response := respond store "GET" path
  .ok ⟨response.code, response.body⟩

/-- What becomes of a connection on which a peer sends bytes and waits: the node replies to each
complete line, and closes the connection if it has ended the session. -/
def lineAnswer (bytes : List UInt8) : Probe.Line.Answer :=
  let (session, sent) := Session.fresh.takeAll bytes
  .sent (sent.flatMap fun reply => Text.Utf8.encode reply.toLine) (session = .ended)

/-- What follows each message to the node. -/
def datagramScript (message : List UInt8) : Probe.Datagram.Script := fun _ =>
  match answerDatagram message with
  | some reply => .reply reply
  | none => .silence

end PeerHealth.Responder
