import PeerHealth.Address.IPv6

/-! Texts that are addresses: the address literal of either kind, the target to dial, and the
addresses a node gives out as its own. -/

namespace PeerHealth.Address

/-- An address of either kind. -/
inductive Literal where
  | v4 (ip : IPv4)
  | v6 (ip : IPv6)
deriving DecidableEq, Repr

namespace Literal

def parse? (s : String) : Option Literal :=
  match IPv4.read? s.toList with
  | some (ip, []) => some (.v4 ip)
  | _ => (IPv6.parse? s).map .v6

def render : Literal → String
  | .v4 ip => String.ofList ip.render
  | .v6 ip => String.ofList ip.render

def network? : Literal → Option Network
  | .v4 ip => some ip.network
  | .v6 _ => none

end Literal

def notAnAddress : String := "invalid IP address syntax"

/-- The target to dial for an address and a port. An IPv6 address is written in its usual form in
brackets, so that its colons are not taken for the one before the port; any other text is used as
it is. -/
def dialTarget (address : String) (port : UInt16) : String :=
  let port := String.ofList (Number.digits port.toNat)
  match IPv6.parse? address with
  | some ip => "[" ++ String.ofList ip.render ++ "]:" ++ port
  | none => address ++ ":" ++ port

/-- An address that may be given to others: neither of the machine itself, nor of its link, nor
unspecified. -/
def IPv4.isOffered (ip : IPv4) : Bool := !(ip.isLoopback || ip.isLinkLocal || ip.isUnspecified)

/-- The first address that may be given to others on a network. -/
def firstOf (network : Network) (ips : List Literal) : Option IPv4 :=
  ips.findSome? fun
    | .v4 ip => if ip.isOffered && ip.network = network then some ip else none
    | .v6 _ => none

end PeerHealth.Address
