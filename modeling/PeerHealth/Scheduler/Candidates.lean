import PeerHealth.Address.Literal
import PeerHealth.Settings.Read

/-! The addresses at which peers are looked for. -/

namespace PeerHealth.Scheduler

/-- How names are resolved: to the addresses behind a name, and to the targets of a service. -/
structure Resolver where
  names : String → Except String (List Address.Literal)
  services : String → Except String (List String)

/-- A resolver that knows no name; an address still stands for itself. -/
def Resolver.literals : Resolver where
  names := fun s =>
    match Address.Literal.parse? s with
    | some ip => .ok [ip]
    | none => .error "name not known"
  services := fun _ => .error "name not known"

/-- The number that the four octets of an address make up. -/
def addressNumber (ip : Address.IPv4) : Nat :=
  ((ip.a.toNat * 256 + ip.b.toNat) * 256 + ip.c.toNat) * 256 + ip.d.toNat

/-- An address put in its place among others, unless it is there already. -/
def insertAddress (ip : Address.IPv4) : List Address.IPv4 → List Address.IPv4
  | [] => [ip]
  | other :: ips =>
    if addressNumber ip < addressNumber other then ip :: other :: ips
    else if ip = other then other :: ips
    else other :: insertAddress ip ips

/-- The IPv4 addresses among others, each once and in order. -/
def ipv4Of (ips : List Address.Literal) : List Address.IPv4 :=
  ips.foldl (fun found ip => match ip with
    | .v4 ip => insertAddress ip found
    | .v6 _ => found) []

def addressTexts (ips : List Address.IPv4) : List String :=
  ips.map fun ip => String.ofList ip.render

/-- The addresses at which a source has peers looked for. A service target that does not resolve is
left out. -/
def candidates (resolver : Resolver) : Settings.Source → Except String (List String)
  | .fixed hosts => .ok hosts
  | .addresses name => (resolver.names name).map fun ips => addressTexts (ipv4Of ips)
  | .services name => do
    let targets ← resolver.services name
    let found := targets.flatMap fun target => match resolver.names target with
      | .ok ips => ips
      | .error _ => []
    return addressTexts (ipv4Of found)

end PeerHealth.Scheduler
