import PeerHealth.Registry.Kinds
import PeerHealth.Store.Cell

/-! The tables of the store. Times and names are kept as text and read when they are asked for, so
that a table can hold rows that do not read. -/

namespace PeerHealth.Store

/-- A row of the host table. The last three columns are for the local host. -/
structure HostRow where
  id : Int
  hostname : String
  internalAddress : String := ""
  publicAddress : String := ""
  discoveredAddress : String := ""
  servicePort : Cell := .whole 0
  firstSeen : String
  lastSeen : String
  isLocal : Cell := .whole 0
  restarts : Cell := .whole 0
  firstStart : Option String := none
  lastStart : Option String := none
deriving DecidableEq, Repr

/-- What is kept of a check. -/
structure CheckColumns where
  host : Cell
  network : String
  protocol : String
  status : String
  code : Cell
  latency : Cell
  body : Option String
  error : Option String
  checkedAt : String
deriving DecidableEq, Repr

structure CheckRow where
  id : Int
  columns : CheckColumns
deriving DecidableEq, Repr

structure LatestRow where
  check : Cell
  columns : CheckColumns
deriving DecidableEq, Repr

structure CounterRow where
  host : Cell
  network : String
  protocol : String
  successes : Cell
  total : Cell
deriving DecidableEq, Repr

structure LogRow where
  id : Int
  level : String
  target : String
  message : String
  createdAt : String
deriving DecidableEq, Repr

/-- The tables. Each numbered one keeps the highest number it has given out, so that none is given
twice. Rows stand in the order of their numbers. -/
structure Database where
  hosts : List HostRow := []
  checks : List CheckRow := []
  latest : List LatestRow := []
  counters : List CounterRow := []
  logs : List LogRow := []
  lastHost : Int := 0
  lastCheck : Int := 0
  lastLog : Int := 0
deriving DecidableEq, Repr, Inhabited

/-- A host, a network and a protocol: what checks are kept together by. -/
structure Bucket where
  host : Int
  network : Network
  protocol : Protocol
deriving DecidableEq, Repr

def CheckColumns.isIn (c : CheckColumns) (b : Bucket) : Bool :=
  c.host.isNumber b.host && c.network = b.network.name && c.protocol = b.protocol.name

def CounterRow.isOf (r : CounterRow) (b : Bucket) : Bool :=
  r.host.isNumber b.host && r.network = b.network.name && r.protocol = b.protocol.name

namespace HostRow

def isSelf (r : HostRow) : Bool := r.isLocal = .whole 1

def isPeer (r : HostRow) : Bool := r.isLocal = .whole 0

/-- The column that two rows may not have in common but do. Empty texts may be repeated. -/
def clash? (r s : HostRow) : Option String :=
  if r.hostname ≠ "" ∧ r.hostname = s.hostname then some "hosts.hostname"
  else if r.internalAddress ≠ "" ∧ r.internalAddress = s.internalAddress then
    some "hosts.internal_address"
  else if r.publicAddress ≠ "" ∧ r.publicAddress = s.publicAddress then some "hosts.public_address"
  else if r.isSelf ∧ s.isSelf then some "hosts.is_local"
  else if r.id = s.id then some "hosts.id"
  else none

end HostRow

/-- The first clash between two of the rows. -/
def firstClash? {α : Type} (clash? : α → α → Option String) : List α → Option String
  | [] => none
  | r :: rows => (rows.findSome? (clash? r)).orElse fun _ => firstClash? clash? rows

/-- `x` put into an ordered list in front of the first item that it may stand before. -/
def insertBefore {α : Type} (before : α → α → Bool) (x : α) : List α → List α
  | [] => [x]
  | y :: ys => if before x y then x :: y :: ys else y :: insertBefore before x ys

/-- The items in order; of two that may stand either way the first stays first. -/
def inOrder {α : Type} (before : α → α → Bool) : List α → List α
  | [] => []
  | x :: xs => insertBefore before x (inOrder before xs)

/-- The first `limit` items. A limit that does not fit a column of whole numbers is none. -/
def upTo {α : Type} (limit : Nat) (xs : List α) : List α :=
  if Number.limit63 ≤ limit then xs else xs.take limit

end PeerHealth.Store
