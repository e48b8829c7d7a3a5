import PeerHealth.Proofs.Store.PeerWrites
import PeerHealth.Proofs.Store.SelfWrites

/-! Runs of writes to a store. Main statement: after every run from an empty store the host table is
sound. -/

namespace PeerHealth

/-- An instant that a clock can show. -/
abbrev Time.Moment := { t : Time.Instant // t.Valid }

def Time.epoch : Time.Moment := ⟨⟨0, 0⟩, by decide⟩

namespace Store

theorem isStoredTime_storedText (now : Time.Moment) : IsStoredTime (Time.storedText now.1) :=
  ⟨now.1, now.2, rfl⟩

/-- A write to a store, or opening it anew with a limit to its history. -/
inductive Write where
  | upsertHost (now : Time.Moment) (identity : Identity)
  | deleteHost (id : Int)
  | registerStart (now : Time.Moment) (identity : Identity)
  | refreshSelf (now : Time.Moment) (identity : Identity)
  | recordCheck (now : Time.Moment) (host : Int) (result : CheckResult)
  | addLogs (entries : List Journal.Entry)
  | reopen (limit : Nat)

/-- A successful check over the internal network. -/
def sampleResult : CheckResult :=
  { network := .internal, protocol := .http, status := .success, code := 200, latency := ⟨1⟩
    body := none, error := none }

/-- The store after a write, whatever its answer. -/
def apply (store : Store) : Write → Store
  | .upsertHost now identity => (store.upsertHost now.1 identity).2
  | .deleteHost id => (store.deleteHost id).2
  | .registerStart now identity => (store.registerStart now.1 identity).2
  | .refreshSelf now identity => (store.refreshSelf now.1 identity).2
  | .recordCheck now host result => (store.recordCheck now.1 host result).2
  | .addLogs entries => (store.addLogs entries).2
  | .reopen limit => store.withHistoryLimit limit

/-- The store after writes. -/
def after (store : Store) (writes : List Write) : Store := writes.foldl apply store

@[simp] theorem after_nil (store : Store) : store.after [] = store := rfl

@[simp] theorem after_cons (store : Store) (w : Write) (writes : List Write) :
    store.after (w :: writes) = (store.apply w).after writes := rfl

theorem after_append (store : Store) (writes writes' : List Write) :
    store.after (writes ++ writes') = (store.after writes).after writes' :=
  List.foldl_append

theorem upsertHost_upserted {store : Store} (hdb : store.database.HostsSound) (now : Time.Moment)
    (identity : Identity) :
    ∃ answer after, store.upsertHost now.1 identity = (answer, { store with database := after }) ∧
      Upserted store.database identity (Time.storedText now.1) answer after := by
  obtain ⟨answer, after, hrun, h⟩ :=
    Statements.upsertHost_upserted hdb (isStoredTime_storedText now) identity
  refine ⟨answer, after, ?_, h⟩
  rw [Store.upsertHost, Store.transact, hrun]

theorem registerStart_selfWritten {store : Store} (hdb : store.database.HostsSound)
    (now : Time.Moment) (identity : Identity) :
    ∃ answer after,
      store.registerStart now.1 identity = (answer, { store with database := after }) ∧
        SelfWritten store.database identity true (Time.storedText now.1) answer after := by
  obtain ⟨answer, after, hrun, h⟩ :=
    Statements.writeSelf_selfWritten hdb (isStoredTime_storedText now) identity true
  refine ⟨answer, after, ?_, h⟩
  rw [Store.registerStart, Store.transact, hrun]

theorem refreshSelf_selfWritten {store : Store} (hdb : store.database.HostsSound)
    (now : Time.Moment) (identity : Identity) :
    ∃ answer after,
      store.refreshSelf now.1 identity = (answer, { store with database := after }) ∧
        SelfWritten store.database identity false (Time.storedText now.1) answer after := by
  obtain ⟨answer, after, hrun, h⟩ :=
    Statements.writeSelf_selfWritten hdb (isStoredTime_storedText now) identity false
  refine ⟨answer, after, ?_, h⟩
  rw [Store.refreshSelf, Store.transact, hrun]

/-- To write a check leaves what does not depend on the tables of checks. -/
theorem Statements.keeps_writeCheck {γ : Type} {p : Database → γ}
    (hp : ∀ (db : Database) checks latest counters lastCheck,
      p { db with checks, latest, counters, lastCheck } = p db)
    (host : Int) (result : CheckResult) (limit : Nat) (now : String) :
    Keeps p (writeCheck host result limit now (pure ())) := by
  refine keeps_bind (keeps_ask _) fun _ => keeps_bind ?_ fun id => ?_
  · refine keeps_bind keeps_get fun db => keeps_bind (keeps_newId _ _) fun id => ?_
    exact keeps_bind (keeps_modify fun _ => hp ..) fun _ => keeps_pure id
  · refine keeps_bind (keeps_modify fun _ => hp ..) fun _ => ?_
    refine keeps_bind (keeps_pure ()) fun _ => ?_
    refine keeps_bind (keeps_modify fun _ => hp ..) fun _ => ?_
    exact keeps_bind (keeps_modify fun _ => hp ..) fun _ => keeps_ask _

/-- The tables but for the log. -/
def Database.unlogged (db : Database) : Database := { db with logs := [], lastLog := 0 }

theorem Statements.keeps_insertLogs (entries : List Journal.Entry) :
    Keeps Database.unlogged (entries.forM insertLog) := by
  induction entries with
  | nil => exact keeps_pure ()
  | cons entry entries ih =>
    refine keeps_bind ?_ fun _ => ih
    refine keeps_bind keeps_get fun db => keeps_bind (keeps_newId _ _) fun id => ?_
    exact keeps_modify fun _ => rfl

theorem recordCheck_hosts (store : Store) (now : Time.Instant) (host : Int)
    (result : CheckResult) :
    (store.recordCheck now host result).2.database.hosts = store.database.hosts ∧
      (store.recordCheck now host result).2.database.lastHost = store.database.lastHost :=
  Prod.ext_iff.mp ((Statements.keeps_writeCheck (p := fun db => (db.hosts, db.lastHost))
    (fun _ _ _ _ _ => rfl) host result store.historyLimit (Time.storedText now)).transact
      store.database)

theorem addLogs_unlogged (store : Store) (entries : List Journal.Entry) :
    (store.addLogs entries).2.database.unlogged = store.database.unlogged :=
  (Statements.keeps_insertLogs entries).transact store.database

theorem Database.HostsSound.congr {db db' : Database} (hdb : db.HostsSound)
    (hhosts : db'.hosts = db.hosts) (hlast : db'.lastHost = db.lastHost) : db'.HostsSound := by
  obtain ⟨rows, distinct, numbered, last⟩ := hdb
  constructor <;> simp only [hhosts, hlast] <;> assumption

theorem hostsSound_empty : ({} : Store).database.HostsSound := by
  refine ⟨fun _ h => (nomatch h), List.Pairwise.nil, fun _ h => (nomatch h), ?_⟩
  decide

theorem hostsSound_apply {store : Store} (hdb : store.database.HostsSound) (w : Write) :
    (store.apply w).database.HostsSound := by
  cases w with
  | upsertHost now identity =>
    obtain ⟨answer, after, hrun, h⟩ := upsertHost_upserted hdb now identity
    rw [Store.apply, hrun]
    exact h.sound hdb (isStoredTime_storedText now)
  | deleteHost id =>
    obtain ⟨answer, after, hrun, h⟩ := deleteHost_deleted hdb id
    rw [Store.apply, hrun]
    exact h.sound hdb
  | registerStart now identity =>
    obtain ⟨answer, after, hrun, h⟩ := registerStart_selfWritten hdb now identity
    rw [Store.apply, hrun]
    exact h.sound hdb (isStoredTime_storedText now)
  | refreshSelf now identity =>
    obtain ⟨answer, after, hrun, h⟩ := refreshSelf_selfWritten hdb now identity
    rw [Store.apply, hrun]
    exact h.sound hdb (isStoredTime_storedText now)
  | recordCheck now host result =>
    obtain ⟨hhosts, hlast⟩ := store.recordCheck_hosts now.1 host result
    exact hdb.congr hhosts hlast
  | addLogs entries =>
    have hhosts := congrArg Database.hosts (store.addLogs_unlogged entries)
    have hlast := congrArg Database.lastHost (store.addLogs_unlogged entries)
    exact hdb.congr hhosts hlast
  | reopen limit => exact hdb

theorem hostsSound_after {store : Store} (hdb : store.database.HostsSound) (writes : List Write) :
    (store.after writes).database.HostsSound := by
  induction writes generalizing store with
  | nil => exact hdb
  | cons w writes ih => exact ih (hostsSound_apply hdb w)

end Store
end PeerHealth
