import PeerHealth.Store.Hosts

/-! The record that a node keeps of itself in its store. -/

namespace PeerHealth.Store

/-- A row with what the local host says of itself. Addresses are taken as given, also empty ones. -/
def HostRow.describe (r : HostRow) (identity : Identity) (hostname now : String) : HostRow :=
  { r with
    hostname
    internalAddress := identity.internalAddress
    publicAddress := identity.publicAddress
    servicePort := .whole identity.servicePort.toNat
    lastSeen := now }

def HostRow.restart (r : HostRow) (now : String) : HostRow :=
  { r with restarts := r.restarts.plus 1, lastStart := some now }

def HostRow.ofSelf (identity : Identity) (hostname now : String) (id : Int) : HostRow :=
  { id, hostname
    internalAddress := identity.internalAddress
    publicAddress := identity.publicAddress
    servicePort := .whole identity.servicePort.toNat
    firstSeen := now
    lastSeen := now
    isLocal := .whole 1
    firstStart := some now
    lastStart := some now }

/-- Records what the local host says of itself, when it starts or at another time. A peer of the
same name is an old view of this host and goes. -/
def Statements.writeSelf (identity : Identity) (started : Bool) (now : String) :
    Statements PeerHealth.SelfRecord := do
  let hostname ← ask fun _ => hostnameOf identity
  if let some stale := (← get).peerId? HostRow.hostname hostname then
    deleteHost stale
  match ← ask Database.localHost? with
  | some self =>
    releaseAddresses identity self.id
    updateHosts (·.id = self.id) fun r =>
      let r := r.describe identity hostname now
      if started then r.restart now else r
  | none =>
    releaseAddresses identity 0
    if started then
      let _ ← insertHost (HostRow.ofSelf identity hostname now)
    else throw .notFound
  ask Database.selfRecord

def registerStart (store : Store) (now : Time.Instant) (identity : Identity) :
    Except Fault PeerHealth.SelfRecord × Store :=
  store.transact (Statements.writeSelf identity true (Time.storedText now))

/-- Records what the local host says of itself between starts. -/
def refreshSelf (store : Store) (now : Time.Instant) (identity : Identity) :
    Except Fault PeerHealth.SelfRecord × Store :=
  store.transact (Statements.writeSelf identity false (Time.storedText now))

def selfRecord (store : Store) : Except Fault PeerHealth.SelfRecord := store.database.selfRecord

end PeerHealth.Store
