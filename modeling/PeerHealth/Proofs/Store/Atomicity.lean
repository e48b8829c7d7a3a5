import PeerHealth.Proofs.Store.Runs

/-! Writes that fail. Main statement: whatever the tables hold, a write that fails leaves the store
as it was, also where other statements of it have taken effect before. -/

namespace PeerHealth.Store

/-- If a write fails, the store is as it was. -/
def Undone {α : Type} (store : Store) (outcome : Except Fault α × Store) : Prop :=
  ∀ e, outcome.1 = .error e → outcome.2 = store

theorem undone_transact {α : Type} (store : Store) (s : Statements α) :
    Undone store (store.transact s) := by
  intro e he
  have hrun : s.transact store.database = (.error e, (s.transact store.database).2) :=
    Prod.ext he rfl
  have hdb := Statements.transact_error hrun
  show ({ store with database := (s.transact store.database).2 } : Store) = store
  rw [hdb]

/-- The places at which the writing of a check may be interrupted: after the check has been added to
the history, after the history has been trimmed, and after the latest check has been replaced. -/
inductive Place where
  | added
  | trimmed
  | replaced
deriving DecidableEq

namespace Statements

/-- Writes a check as `writeCheck` does, with statements run at each place. -/
def writeCheckWith (host : Int) (result : CheckResult) (limit : Nat) (now : String)
    (hook : Place → Statements Unit) : Statements Check := do
  let _ ← ask (·.hostById host)
  let b := bucketOf host result
  let columns := columnsOf host result now
  let id ← insertCheck columns
  hook .added
  modify fun db => { db with checks := trimmed db.checks b limit }
  hook .trimmed
  modify fun db => { db with latest := putLatest db.latest b ⟨.whole id, columns⟩ }
  hook .replaced
  modify fun db => { db with counters := countCheck db.counters b result.status }
  ask fun db =>
    match db.checks.find? (·.id = id) with
    | some r => ofTable r.read
    | none => .error (.table .missingRow)

/-- Statements at one place only. -/
def only (place : Place) (s : Statements Unit) (p : Place) : Statements Unit :=
  if p = place then s else pure ()

/-- The tables at a place in the writing of a check. -/
def reached (db : Database) (host : Int) (result : CheckResult) (limit : Nat) (now : String) :
    Place → Database
  | .added =>
    { db with
      checks := db.checks ++ [⟨nextCheck db, columnsOf host result now⟩]
      lastCheck := nextCheck db }
  | .trimmed =>
    { db with
      checks := Store.trimmed (db.checks ++ [⟨nextCheck db, columnsOf host result now⟩])
        (bucketOf host result) limit
      lastCheck := nextCheck db }
  | .replaced =>
    { db with
      checks := Store.trimmed (db.checks ++ [⟨nextCheck db, columnsOf host result now⟩])
        (bucketOf host result) limit
      latest := putLatest db.latest (bucketOf host result)
        ⟨.whole (nextCheck db), columnsOf host result now⟩
      lastCheck := nextCheck db }

/-- An interruption finds what has been written up to its place. -/
theorem exec_interrupted {db : Database} {host : Int} {found : Host}
    (readable : db.hostById host = .ok found) (room : nextCheck db ≤ Cell.highest)
    (result : CheckResult) (limit : Nat) (now : String) (place : Place) (e : Fault) :
    exec (writeCheckWith host result limit now (only place (throw e))) db =
      (.error e, reached db host result limit now place) := by
  have hask : exec (ask (·.hostById host)) db = (.ok found, db) := by rw [exec_ask, readable]
  have hinsert := exec_insertCheck (columnsOf host result now) db
  rw [if_neg (Int.not_lt.mpr room)] at hinsert
  rw [writeCheckWith, exec_bind_of_ok hask, exec_bind_of_ok hinsert]
  cases place <;> rfl

end Statements

/-- Whatever the tables hold, a write that fails leaves the store as it was. So it is when the local
host is described before its first start, although a stale peer of its name and the addresses of
other peers are gone by then, and when the writing of a check is interrupted, although it stands in
the tables by then. -/
theorem failure_changes_nothing (store : Store) (now : Time.Instant) :
    ((∀ identity, Undone store (store.upsertHost now identity)) ∧
      (∀ id, Undone store (store.deleteHost id)) ∧
      (∀ identity, Undone store (store.registerStart now identity)) ∧
      (∀ identity, Undone store (store.refreshSelf now identity)) ∧
      (∀ host result, Undone store (store.recordCheck now host result)) ∧
      ∀ entries, Undone store (store.addLogs entries)) ∧
    (∀ identity : Identity, Text.trim identity.hostname ≠ "" → Distinct store.database.hosts →
      (∀ r ∈ store.database.hosts, r.isSelf = false) →
        Statements.exec (Statements.writeSelf identity false (Time.storedText now))
            store.database =
          (.error .notFound,
            (store.database.freed (Text.trim identity.hostname)).released identity) ∧
        store.refreshSelf now identity = (.error .notFound, store)) ∧
    ∀ (host : Int) (result : CheckResult) (place : Place) (e : Fault) (found : Host),
      store.database.hostById host = .ok found →
      Statements.nextCheck store.database ≤ Cell.highest →
        Statements.exec
            (Statements.writeCheckWith host result store.historyLimit (Time.storedText now)
              (Statements.only place (throw e))) store.database =
          (.error e, Statements.reached store.database host result store.historyLimit
            (Time.storedText now) place) ∧
        store.transact
            (Statements.writeCheckWith host result store.historyLimit (Time.storedText now)
              (Statements.only place (throw e))) =
          (.error e, store) := by
  refine ⟨⟨fun _ => undone_transact store _, fun _ => undone_transact store _,
    fun _ => undone_transact store _, fun _ => undone_transact store _,
    fun _ _ => undone_transact store _, fun _ => undone_transact store _⟩,
    fun identity hne hd hself => ?_, fun host result place e found readable room => ?_⟩
  · have hfreed := hd.freed (Text.trim identity.hostname)
    have hself' : ∀ r ∈ (store.database.freed (Text.trim identity.hostname)).hosts,
        r.isSelf = false := fun r hr => hself r (Database.mem_of_mem_freed hr)
    have hexec := (Statements.exec_writeSelf store.database false (Time.storedText now) hne).trans
      (Statements.exec_writeOwn_of_not_self hfreed hself' identity
        (Text.trim identity.hostname) false (Time.storedText now))
    exact ⟨hexec, transact_of_exec_error hexec⟩
  · have hexec := Statements.exec_interrupted readable room result store.historyLimit
      (Time.storedText now) place e
    exact ⟨hexec, transact_of_exec_error hexec⟩

/-- A store with a peer that has the local host's name. -/
def staleStore : Store := ({} : Store).after [.upsertHost Time.epoch { hostname := "a" }]

def stalePeer : Host :=
  { id := 1, hostname := "a", internalAddress := "", publicAddress := "", discoveredAddress := ""
    servicePort := 0, firstSeen := ⟨0, 0⟩, lastSeen := ⟨0, 0⟩, isLocal := false }

theorem failure_changes_nothing_of_stale :
    (staleStore.deleteHost 2).2 = staleStore ∧
      (staleStore.refreshSelf ⟨1, 0⟩ { hostname := "a" }) = (.error .notFound, staleStore) ∧
      staleStore.transact (Statements.writeCheckWith 1 sampleResult staleStore.historyLimit
          (Time.storedText ⟨1, 0⟩) (Statements.only .replaced (throw .notFound))) =
        (.error .notFound, staleStore) := by
  have hsound := hostsSound_after hostsSound_empty
    [.upsertHost Time.epoch { hostname := "a" }]
  have hread : staleStore.database.hostById 1 = .ok stalePeer := by
    have hread : (staleStore.database.hostById 1).toOption = some stalePeer := by decide +kernel
    cases hfound : staleStore.database.hostById 1 with
    | ok found =>
      rw [hfound] at hread
      exact congrArg Except.ok (Option.some.inj hread)
    | error e =>
      rw [hfound] at hread
      cases hread
  have hmissing : (staleStore.deleteHost 2).1 = .error .notFound := by
    have hnone : ∀ r ∈ staleStore.database.hosts, r.id ≠ 2 := by decide +kernel
    have hask : Statements.exec (Statements.ask (·.hostById 2)) staleStore.database =
        (.error .notFound, staleStore.database) := by
      rw [Statements.exec_ask, Database.hostById_eq_notFound hnone]
    rw [deleteHost_eq, Statements.deletePeer,
      transact_of_exec_error (Statements.exec_bind_of_error hask)]
  have hall := failure_changes_nothing staleStore ⟨1, 0⟩
  refine ⟨hall.1.2.1 2 .notFound hmissing, ?_, ?_⟩
  · exact (hall.2.1 { hostname := "a" } (by decide) hsound.distinct (by decide +kernel)).2
  · exact (hall.2.2 1 sampleResult .replaced .notFound stalePeer hread (by decide +kernel)).2

end PeerHealth.Store
