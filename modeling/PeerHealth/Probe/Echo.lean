import PeerHealth.Number.Power

/-! Echo messages of the control message protocol: building a request, and telling the reply to it
from other messages. -/

namespace PeerHealth.Probe.Echo

/-- The types of requests and replies, for IPv4 and for IPv6. -/
def requestV4 : UInt8 := 8

def replyV4 : UInt8 := 0

def requestV6 : UInt8 := 128

def replyV6 : UInt8 := 129

def wordBytes (w : UInt16) : List UInt8 := [(w / 256).toUInt8, w.toUInt8]

def word (high low : UInt8) : UInt16 := high.toUInt16 * 256 + low.toUInt16

/-- The sum of the 16-bit words of the data; an odd last byte is a word's high byte. -/
def wordSum : List UInt8 → Nat
  | [] => 0
  | [high] => high.toNat * 256
  | high :: low :: rest => high.toNat * 256 + low.toNat + wordSum rest

/-- A sum with the carries beyond 16 bits added in again until none is left. -/
def foldCarries (n : Nat) : Nat := if n < 65536 then n else foldCarries (n % 65536 + n / 65536)
termination_by n

/-- The checksum: the complement of the one's complement sum of the words. The words are summed in
32 bits; `none` if that is not enough. -/
def checksum? (data : List UInt8) : Option UInt16 :=
  let sum := wordSum data
  if sum < Number.limit32 then some (~~~ (UInt16.ofNat (foldCarries sum))) else none

/-- The lowest bytes of a number, `count` of them, high byte first. -/
def lowBytes : Nat → Nat → List UInt8
  | 0, _ => []
  | count + 1, n => lowBytes count (n / 256) ++ [n.toUInt8]

def stampBytes (stamp : UInt64) : List UInt8 := lowBytes 8 stamp.toNat

/-- A request with its checksum field as given: type, code zero, checksum, identifier, sequence
number, time stamp, and zeros up to 64 bytes. -/
def packet (kind : UInt8) (checksum identifier sequence : UInt16) (stamp : UInt64) : List UInt8 :=
  [kind, 0] ++ wordBytes checksum ++ wordBytes identifier ++ wordBytes sequence ++
    stampBytes stamp ++ List.replicate 48 0

/-- A request. For IPv6 the checksum is left to others. -/
def request (kind : UInt8) (identifier sequence : UInt16) (stamp : UInt64) (withChecksum : Bool) :
    List UInt8 :=
  let blank := packet kind 0 identifier sequence stamp
  if withChecksum then packet kind ((checksum? blank).getD 0) identifier sequence stamp else blank

/-- The length of the IPv4 header in front of a message, as its first byte tells it. -/
def headerLength : List UInt8 → Nat
  | [] => 0
  | first :: _ => if first / 16 = 4 then (first % 16).toNat * 4 else 0

/-- Whether a message, without a header, is the reply to a request. -/
def answers (message : List UInt8) (kind : UInt8) (identifier sequence : UInt16)
    (checkId : Bool) : Bool :=
  match message with
  | type :: _ :: _ :: _ :: i₁ :: i₂ :: s₁ :: s₂ :: _ =>
    type = kind && word s₁ s₂ = sequence && (!checkId || word i₁ i₂ = identifier)
  | _ => false

/-- Whether data, perhaps with an IPv4 header in front, is the reply to a request. -/
def isOurReply (data : List UInt8) (kind : UInt8) (identifier sequence : UInt16)
    (checkId : Bool) : Bool :=
  answers (data.drop (headerLength data)) kind identifier sequence checkId

end PeerHealth.Probe.Echo
