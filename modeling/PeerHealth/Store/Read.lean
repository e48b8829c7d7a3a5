import PeerHealth.Journal.Entry
import PeerHealth.Registry.Check
import PeerHealth.Registry.Host
import PeerHealth.Registry.Uptime
import PeerHealth.Store.Fault
import PeerHealth.Store.Table
import PeerHealth.Time.Stored

/-! Rows of the tables read as what they stand for. A row that does not read is a fault of the
table, told with the first column that does not. -/

namespace PeerHealth.Store

/-- What kind of value a column of whole numbers holds. -/
def Cell.kindName : Cell → String
  | .whole _ => "Integer"
  | .real _ => "Real"
  | .text _ => "Text"

def readWhole (column : Nat) (name : String) : Cell → Except TableFault Int
  | .whole n => .ok n
  | c => .error (.wrongKind column name c.kindName)

def readWord (column : Nat) (name : String) (c : Cell) : Except TableFault UInt16 := do
  let n ← readWhole column name c
  if 0 ≤ n ∧ n < 65536 then .ok (UInt16.ofNat n.toNat) else .error (.outOfRange column n)

def readTime (column : Nat) (text : String) : Except TableFault Time.Instant :=
  match Time.parseTime? text with
  | some t => .ok t
  | none => .error (.badTime column text)

def readName {α : Type} (ofName? : String → Option α) (column : Nat) (name : String) :
    Except TableFault α :=
  match ofName? name with
  | some a => .ok a
  | none => .error (.badName column name)

/-- A time that may be missing where it is not wanted. -/
def readOptionalTime (column : Nat) (name : String) : Option String → Except TableFault Time.Instant
  | some text => readTime column text
  | none => .error (.wrongKind column name "Null")

def HostRow.read (r : HostRow) : Except TableFault Host := do
  let servicePort ← readWord 5 "service_port" r.servicePort
  let firstSeen ← readTime 6 r.firstSeen
  let lastSeen ← readTime 7 r.lastSeen
  let isLocal ← readWhole 8 "is_local" r.isLocal
  return { id := r.id, hostname := r.hostname, internalAddress := r.internalAddress
           publicAddress := r.publicAddress, discoveredAddress := r.discoveredAddress
           servicePort, firstSeen, lastSeen, isLocal := isLocal ≠ 0 }

def HostRow.readSelf (r : HostRow) : Except TableFault SelfRecord := do
  let host ← r.read
  let restarts ← readWhole 9 "restarts" r.restarts
  let firstStart ← readOptionalTime 10 "first_start_at" r.firstStart
  let lastStart ← readOptionalTime 11 "last_start_at" r.lastStart
  return { host, restarts, firstStart, lastStart }

def CheckColumns.read (c : CheckColumns) (id : Int) : Except TableFault Check := do
  let host ← readWhole 1 "host_id" c.host
  let network ← readName Network.ofName? 2 c.network
  let protocol ← readName Protocol.ofName? 3 c.protocol
  let status ← readName Status.ofName? 4 c.status
  let code ← readWord 5 "status_code" c.code
  let latency ← readWhole 6 "latency_ns" c.latency
  let checkedAt ← readTime 9 c.checkedAt
  return { id, host, network, protocol, status, code, latency, body := c.body, error := c.error
           checkedAt }

def CheckRow.read (r : CheckRow) : Except TableFault Check := r.columns.read r.id

def LatestRow.read (r : LatestRow) : Except TableFault Check := do
  let id ← readWhole 0 "check_id" r.check
  r.columns.read id

/-- Negative numbers of checks count as zero. -/
def CounterRow.read (r : CounterRow) : Except TableFault Leaf := do
  let network ← readName Network.ofName? 0 r.network
  let protocol ← readName Protocol.ofName? 1 r.protocol
  let successes ← readWhole 2 "success_count" r.successes
  let total ← readWhole 3 "total_count" r.total
  return { network, protocol, counts := ⟨successes.toNat, total.toNat⟩ }

def LogRow.read (r : LogRow) : Except TableFault Journal.Entry := do
  let createdAt ← readTime 3 r.createdAt
  return { level := r.level, target := r.target, message := r.message, createdAt }

def ofTable {α : Type} : Except TableFault α → Except Fault α
  | .ok a => .ok a
  | .error e => .error (.table e)

/-- The rows read one after the other, up to the first that does not read. -/
def readAll {ρ α : Type} (read : ρ → Except TableFault α) (rows : List ρ) : Except Fault (List α) :=
  ofTable (rows.mapM read)

namespace Database

/-- The first host that `p` holds of. -/
def hostWhere (db : Database) (p : HostRow → Bool) : Except Fault Host :=
  match db.hosts.find? p with
  | some r => ofTable r.read
  | none => .error .notFound

def hostById (db : Database) (id : Int) : Except Fault Host := db.hostWhere (·.id = id)

/-- The local host, if it has been recorded. -/
def localHost? (db : Database) : Except Fault (Option Host) :=
  match db.hosts.find? HostRow.isSelf with
  | some r => ofTable (r.read.map some)
  | none => .ok none

/-- The local host with its starts. -/
def selfRecord (db : Database) : Except Fault SelfRecord :=
  match db.hosts.find? HostRow.isSelf with
  | some r => ofTable r.readSelf
  | none => .error .notFound

/-- The number of the first peer with a non-empty text in a column. -/
def peerId? (db : Database) (column : HostRow → String) (text : String) : Option Int :=
  if text = "" then none
  else (db.hosts.find? fun r => column r = text && r.isPeer).map (·.id)

/-- The first host with the address in a column, looked for in one column after the other. An
unreadable host ends the search. -/
def hostByAddress (db : Database) (address : String) : Except Fault Host :=
  if address = "" then .error .notFound
  else
    match db.hostWhere (·.internalAddress = address) with
    | .error .notFound =>
      match db.hostWhere (·.publicAddress = address) with
      | .error .notFound => db.hostWhere (·.discoveredAddress = address)
      | found => found
    | found => found

end Database
end PeerHealth.Store
