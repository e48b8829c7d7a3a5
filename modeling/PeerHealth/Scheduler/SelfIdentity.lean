import PeerHealth.Registry.Host
import PeerHealth.Scheduler.Candidates

/-! Who a node is: its name, and its addresses. -/

namespace PeerHealth.Scheduler

/-- What a node can learn of the machine it runs on. -/
structure Machine where
  hostname : Option String := none
  /-- The addresses behind a name; none if it does not resolve. -/
  names : String → List Address.Literal
  /-- The addresses of the machine itself. -/
  interfaces : List Address.Literal := []

def Machine.addressOf (m : Machine) (name : String) : Option Address.IPv4 :=
  if name = "" then none
  else (m.names name).findSome? fun
    | .v4 ip => some ip
    | .v6 _ => none

def Machine.nameOf (m : Machine) : String :=
  match m.hostname with
  | some name => if name = "" then "localhost" else name
  | none => "localhost"

/-- Who the node is: each address is the one behind the name in the settings, or else the first
that fits among those of the machine. -/
def selfIdentity (m : Machine) (settings : Settings) : Identity :=
  let choose (name : String) (network : Network) : String :=
    match (m.addressOf name).orElse fun _ => Address.firstOf network m.interfaces with
    | some ip => String.ofList ip.render
    | none => ""
  { hostname := m.nameOf
    internalAddress := choose settings.internalName .internal
    publicAddress := choose settings.publicName .external
    servicePort := settings.servicePort }

end PeerHealth.Scheduler
