import PeerHealth.Store.Hosts

/-! Checks in the store: a limited history, the latest check, and the numbers of checks, each for a
host, a network and a protocol. -/

namespace PeerHealth.Store

/-- The bucket that a result for a host belongs to. -/
def bucketOf (host : Int) (result : CheckResult) : Bucket := ⟨host, result.network, result.protocol⟩

/-- A result as the tables keep it. A latency past the highest number is kept as that number. -/
def columnsOf (host : Int) (result : CheckResult) (now : String) : CheckColumns :=
  { host := .whole host
    network := result.network.name
    protocol := result.protocol.name
    status := result.status.name
    code := .whole result.code.toNat
    latency := .whole (min result.latency.nanoseconds Cell.highest)
    body := result.body
    error := result.error
    checkedAt := now }

/-- The first of two checks is the newer one, or they are the same age and it has the higher
number. -/
def newer (r s : CheckRow) : Bool :=
  s.columns.checkedAt < r.columns.checkedAt ||
    (r.columns.checkedAt = s.columns.checkedAt && s.id ≤ r.id)

/-- The checks of a bucket, newest first. -/
def Database.history (db : Database) (b : Bucket) : List CheckRow :=
  inOrder newer (db.checks.filter (·.columns.isIn b))

/-- The table without the checks of a bucket past the newest `limit`. -/
def trimmed (checks : List CheckRow) (b : Bucket) (limit : Nat) : List CheckRow :=
  let mine := checks.filter (·.columns.isIn b)
  if mine.length ≤ limit then checks
  else
    let kept := (upTo limit (inOrder newer mine)).map (·.id)
    checks.filter fun r => !r.columns.isIn b || kept.contains r.id

/-- The latest checks with the bucket's replaced, or added if it had none. A row that is replaced
keeps the number of its host as it stands there. -/
def putLatest (rows : List LatestRow) (b : Bucket) (row : LatestRow) : List LatestRow :=
  if rows.any (·.columns.isIn b) then
    rows.map fun r =>
      if r.columns.isIn b then { row with columns := { row.columns with host := r.columns.host } }
      else r
  else rows ++ [row]

/-- The counters with one more check in the bucket's. -/
def countCheck (rows : List CounterRow) (b : Bucket) (status : Status) : List CounterRow :=
  let success : Int := if status = .success then 1 else 0
  if rows.any (·.isOf b) then
    rows.map fun r =>
      if r.isOf b then
        { r with successes := r.successes.plus success, total := r.total.plus 1 }
      else r
  else
    rows ++ [{ host := .whole b.host, network := b.network.name, protocol := b.protocol.name
               successes := .whole success, total := .whole 1 }]

namespace Statements

/-- Adds a check to the history, with the next number, which is the answer. -/
def insertCheck (columns : CheckColumns) : Statements Int := do
  let db ← get
  let id ← newId db.lastCheck (db.checks.map (·.id))
  modify fun db => { db with checks := db.checks ++ [{ id, columns }], lastCheck := id }
  return id

/-- Writes a check: to the history, which is trimmed to its limit, as the latest one, and into the
counters. `between` comes after the history has been written. -/
def writeCheck (host : Int) (result : CheckResult) (limit : Nat) (now : String)
    (between : Statements Unit) : Statements Check := do
  let _ ← ask (·.hostById host)
  let b := bucketOf host result
  let columns := columnsOf host result now
  let id ← insertCheck columns
  modify fun db => { db with checks := trimmed db.checks b limit }
  between
  modify fun db => { db with latest := putLatest db.latest b ⟨.whole id, columns⟩ }
  modify fun db => { db with counters := countCheck db.counters b result.status }
  ask fun db =>
    match db.checks.find? (·.id = id) with
    | some r => ofTable r.read
    | none => .error (.table .missingRow)

end Statements

def recordCheck (store : Store) (now : Time.Instant) (host : Int) (result : CheckResult) :
    Except Fault Check × Store :=
  store.transact
    (Statements.writeCheck host result store.historyLimit (Time.storedText now) (pure ()))

/-- The newest checks of a bucket, at most `limit`. -/
def checks (store : Store) (b : Bucket) (limit : Nat) : Except Fault (List Check) :=
  readAll CheckRow.read (upTo limit (store.database.history b))

/-- The order by network and then by protocol. -/
def bucketBefore (r s : LatestRow) : Bool :=
  r.columns.network < s.columns.network ||
    (r.columns.network = s.columns.network && r.columns.protocol ≤ s.columns.protocol)

def latestChecks (store : Store) (host : Int) : Except Fault (List Check) :=
  readAll LatestRow.read
    (inOrder bucketBefore (store.database.latest.filter (·.columns.host.isNumber host)))

/-- The numbers of checks of a host; `none` if a sum passes the limit of what is counted. -/
def uptime (store : Store) (host : Int) : Except Fault (Option Uptime) := do
  let _ ← store.hostById host
  let leaves ← readAll CounterRow.read (store.database.counters.filter (·.host.isNumber host))
  return Uptime.ofLeaves? host leaves

end PeerHealth.Store
