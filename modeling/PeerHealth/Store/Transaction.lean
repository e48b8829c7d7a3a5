import PeerHealth.Store.Read

/-! Transactions: a run of statements of which each takes effect at once. If one of them fails, what
the others did is undone. Main statement: a transaction that fails leaves the tables as they
were. -/

namespace PeerHealth.Store

/-- A run of statements. -/
abbrev Statements := ExceptT Fault (StateM Database)

namespace Statements

/-- Runs the statements as one transaction. -/
def transact {α : Type} (s : Statements α) (db : Database) : Except Fault α × Database :=
  match s.run.run db with
  | (.ok a, after) => (.ok a, after)
  | (.error e, _) => (.error e, db)

theorem transact_error {α : Type} {s : Statements α} {db after : Database} {e : Fault}
    (h : s.transact db = (.error e, after)) : after = db := by
  simp only [transact] at h
  split at h <;> cases h
  rfl

def ask {α : Type} (question : Database → Except Fault α) : Statements α := do
  match question (← get) with
  | .ok a => return a
  | .error e => throw e

/-- Puts other rows into the host table, unless two of them clash. -/
def setHosts (rows : List HostRow) : Statements Unit :=
  match firstClash? HostRow.clash? rows with
  | some columns => throw (.table (.taken columns))
  | none => modify fun db => { db with hosts := rows }

def updateHosts (p : HostRow → Bool) (change : HostRow → HostRow) : Statements Unit := do
  setHosts ((← get).hosts.map fun r => if p r then change r else r)

/-- The number for a new row, after the highest given out and the highest in use. -/
def nextId (last : Int) (ids : List Int) : Int := ids.foldl max last + 1

/-- A new number, unless none is left. -/
def newId (last : Int) (ids : List Int) : Statements Int :=
  if Cell.highest < nextId last ids then throw (.table (.refused "database or disk is full"))
  else return nextId last ids

/-- Adds a host with the next number, which is the answer. -/
def insertHost (row : Int → HostRow) : Statements Int := do
  let db ← get
  let id ← newId db.lastHost (db.hosts.map (·.id))
  setHosts (db.hosts ++ [row id])
  modify fun db => { db with lastHost := id }
  return id

/-- Deletes a host with its history, its latest checks and its counters. -/
def deleteHost (id : Int) : Statements Unit :=
  modify fun db =>
    { db with
      hosts := db.hosts.filter (·.id ≠ id)
      checks := db.checks.filter fun r => !r.columns.host.isNumber id
      latest := db.latest.filter fun r => !r.columns.host.isNumber id
      counters := db.counters.filter fun r => !r.host.isNumber id }

/-- Takes the addresses of an identity away from the peers that hold them, the one with number
`keep` excepted. -/
def releaseAddresses (identity : Identity) (keep : Int) : Statements Unit := do
  let others (r : HostRow) : Bool := r.id ≠ keep && r.isPeer
  if identity.internalAddress ≠ "" then
    updateHosts (fun r => others r && r.internalAddress = identity.internalAddress)
      fun r => { r with internalAddress := "" }
  if identity.publicAddress ≠ "" then
    updateHosts (fun r => others r && r.publicAddress = identity.publicAddress)
      fun r => { r with publicAddress := "" }

end Statements
end PeerHealth.Store
