import PeerHealth.Registry.Kinds
import PeerHealth.Time.Duration
import PeerHealth.Time.Instant

/-! Checks: the result of one, and the record kept of it. -/

namespace PeerHealth

/-- What a check came to, before it is recorded. -/
structure CheckResult where
  network : Network
  protocol : Protocol
  status : Status
  code : UInt16
  latency : Duration
  body : Option String
  error : Option String
deriving DecidableEq, Repr

structure Check where
  id : Int
  host : Int
  network : Network
  protocol : Protocol
  status : Status
  code : UInt16
  /-- In nanoseconds. -/
  latency : Int
  body : Option String
  error : Option String
  checkedAt : Time.Instant
deriving DecidableEq, Repr

/-- The time a recorded check took; a negative one counts as none. -/
def Check.duration (c : Check) : Duration := ⟨c.latency.toNat⟩

end PeerHealth
