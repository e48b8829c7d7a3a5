import PeerHealth.Registry.Kinds
import PeerHealth.Time.Instant

/-! The hosts of a fleet: what a host says of itself and what is kept of it. An empty address means
that none is known. -/

namespace PeerHealth

/-- What a host says of itself, and the address it was found at, if it was looked for there. -/
structure Identity where
  hostname : String
  internalAddress : String := ""
  publicAddress : String := ""
  discoveredAddress : String := ""
  servicePort : UInt16 := 0
deriving DecidableEq, Repr, Inhabited

structure Host where
  id : Int
  hostname : String
  internalAddress : String
  publicAddress : String
  discoveredAddress : String
  servicePort : UInt16
  firstSeen : Time.Instant
  lastSeen : Time.Instant
  /-- The host is the node that keeps the record. -/
  isLocal : Bool
deriving DecidableEq, Repr, Inhabited

/-- The record a node keeps of itself, with its starts. -/
structure SelfRecord where
  host : Host
  restarts : Int
  firstStart : Time.Instant
  lastStart : Time.Instant
deriving DecidableEq, Repr, Inhabited

def Identity.addressIn (identity : Identity) : Network → String
  | .internal => identity.internalAddress
  | .external => identity.publicAddress

namespace Host

def addressIn (h : Host) : Network → String
  | .internal => h.internalAddress
  | .external => h.publicAddress

/-- The address on a network, if one is known. -/
def address? (h : Host) (n : Network) : Option String :=
  if h.addressIn n = "" then none else some (h.addressIn n)

/-- Whether `a` is an address that the host is known by. -/
def hasAddress (h : Host) (a : String) : Bool :=
  a ≠ "" && (h.internalAddress = a || h.publicAddress = a || h.discoveredAddress = a)

end Host
end PeerHealth
