import PeerHealth.Responder.Lines

/-! Lines out of what arrives. Bytes arrive in segments that may be cut anywhere. The responder
looks through the segment at hand for the end of the line, as far as the line has room, and takes
all up to there at once; what the line does not take is left for the next one. -/

namespace PeerHealth.Responder

namespace Session

end Session

/-- The bytes of replies, each on a line of its own. -/
def written (replies : List Wire.Reply) : List UInt8 :=
  replies.flatMap fun reply => Text.Utf8.encode reply.toLine

end PeerHealth.Responder
