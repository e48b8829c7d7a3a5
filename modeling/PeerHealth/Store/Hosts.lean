import PeerHealth.Store.Transaction
import PeerHealth.Text.Blank

/-! Hosts in the store: recording what a peer says of itself, finding peers, and deleting one. -/

namespace PeerHealth

/-- The store: its tables, and how many checks it keeps of each host, network and protocol. -/
structure Store where
  database : Store.Database := {}
  historyLimit : Nat := 100
deriving Inhabited

namespace Store

/-- Runs a transaction on the store's tables. -/
def transact {α : Type} (store : Store) (s : Statements α) : Except Fault α × Store :=
  let (answer, database) := s.transact store.database
  (answer, { store with database })

/-- A store with the same tables that keeps `limit` checks, and one at least. -/
def withHistoryLimit (store : Store) (limit : Nat) : Store :=
  { store with historyLimit := max limit 1 }

/-- The hostname that an identity gives, without white space around it. -/
def hostnameOf (identity : Identity) : Except Fault String :=
  let name := Text.trim identity.hostname
  if name = "" then .error (.invalid "empty hostname") else .ok name

/-- The refusal of a peer that says it is the node itself. -/
def Fault.isLocal (hostname : String) : Fault := .conflict (hostname ++ " is the local node")

/-- The identity is that of host `h`: it has the same name, or one of its addresses is the same. -/
def describes (identity : Identity) (hostname : String) (h : Host) : Bool :=
  h.hostname = hostname ||
    (identity.internalAddress ≠ "" && h.internalAddress = identity.internalAddress) ||
    (identity.publicAddress ≠ "" && h.publicAddress = identity.publicAddress)

/-- The peer that an identity is about: the one of that name, otherwise one with its internal
address, otherwise one with its public address. -/
def Database.peerOf? (db : Database) (identity : Identity) (hostname : String) : Option Int :=
  ((db.peerId? HostRow.hostname hostname).orElse fun _ =>
    db.peerId? HostRow.internalAddress identity.internalAddress).orElse fun _ =>
      db.peerId? HostRow.publicAddress identity.publicAddress

/-- `new`, or `old` if the new text is empty. -/
def replaced (old new : String) : String := if new = "" then old else new

/-- A row with what an identity says filled in. What the identity leaves empty stays. -/
def HostRow.merge (r : HostRow) (identity : Identity) (hostname now : String) : HostRow :=
  { r with
    hostname
    internalAddress := replaced r.internalAddress identity.internalAddress
    publicAddress := replaced r.publicAddress identity.publicAddress
    discoveredAddress := replaced r.discoveredAddress identity.discoveredAddress
    servicePort :=
      if identity.servicePort = 0 then r.servicePort else .whole identity.servicePort.toNat
    lastSeen := now }

def HostRow.ofPeer (identity : Identity) (hostname now : String) (id : Int) : HostRow :=
  { id, hostname
    internalAddress := identity.internalAddress
    publicAddress := identity.publicAddress
    discoveredAddress := identity.discoveredAddress
    servicePort := .whole identity.servicePort.toNat
    firstSeen := now
    lastSeen := now }

/-- Records what a peer says of itself: on the record that the identity is about, or on a new one.
Addresses that others hold are taken from them. -/
def Statements.upsertHost (identity : Identity) (now : String) : Statements Host := do
  let hostname ← ask fun _ => hostnameOf identity
  if let some self ← ask Database.localHost? then
    if describes identity hostname self then throw (.isLocal hostname)
  let id ← match (← get).peerOf? identity hostname with
    | some id =>
      releaseAddresses identity id
      updateHosts (·.id = id) fun r => r.merge identity hostname now
      pure id
    | none =>
      releaseAddresses identity 0
      insertHost (HostRow.ofPeer identity hostname now)
  ask (·.hostById id)

def upsertHost (store : Store) (now : Time.Instant) (identity : Identity) :
    Except Fault Host × Store :=
  store.transact (Statements.upsertHost identity (Time.storedText now))

def hostById (store : Store) (id : Int) : Except Fault Host := store.database.hostById id

def hostByName (store : Store) (hostname : String) : Except Fault Host :=
  store.database.hostWhere (·.hostname = hostname)

/-- The host with an address: as its internal one, otherwise as its public one, otherwise as the
one it was found at. -/
def hostByAddress (store : Store) (address : String) : Except Fault Host :=
  store.database.hostByAddress address

structure HostFilter where
  includeLocal : Bool := false
  withPublicAddress : Bool := false
  seenSince : Option Time.Instant := none
deriving DecidableEq, Repr

/-- Times are compared as they are stored. -/
def HostFilter.admits (filter : HostFilter) (r : HostRow) : Bool :=
  (filter.includeLocal || r.isPeer) &&
    (!filter.withPublicAddress || r.publicAddress ≠ "") &&
    match filter.seenSince with
    | some since => Time.storedText since ≤ r.lastSeen
    | none => true

/-- The order in which a filter comes by the hosts that it admits: those with a public address by
that address, others by number. -/
def HostFilter.arrange (filter : HostFilter) (rows : List HostRow) : List HostRow :=
  if filter.withPublicAddress then inOrder (fun r s => r.publicAddress ≤ s.publicAddress) rows
  else rows

/-- The hosts that a filter admits, ordered by name. Those without a name stay as the filter comes
by them. -/
def hosts (store : Store) (filter : HostFilter) : Except Fault (List Host) :=
  readAll HostRow.read
    (inOrder (fun r s : HostRow => r.hostname ≤ s.hostname)
      (filter.arrange (store.database.hosts.filter filter.admits)))

/-- Deletes a peer with all that is kept of it. -/
def deleteHost (store : Store) (id : Int) : Except Fault Unit × Store :=
  store.transact do
    let host ← Statements.ask (·.hostById id)
    if host.isLocal then throw (.conflict "cannot delete the local node")
    Statements.deleteHost id

end Store
end PeerHealth
