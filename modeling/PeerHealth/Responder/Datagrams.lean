import PeerHealth.Probe.Datagram

/-! The datagram responder: it answers one message and no other. -/

namespace PeerHealth.Responder

def maxDatagram : Nat := 2048

/-- The message that is answered, with or without a newline. -/
def isPing (message : List UInt8) : Bool :=
  message = Text.Utf8.encode "ping" || message = Probe.Datagram.ping

def answerDatagram (message : List UInt8) : Option (List UInt8) :=
  if isPing (message.take maxDatagram) then some Probe.Datagram.pong else none

end PeerHealth.Responder
