import PeerHealth.Proofs.Store.Lists
import PeerHealth.Proofs.Store.Runs

/-! Lines written to the log. Main statements: a batch of lines is put at the end of the log or not
written at all, no other write touches the log, and the newest lines of it can be read. -/

namespace PeerHealth.Store

open Journal (Entry)

/-- The log holds these lines, in the order in which they were written. -/
structure Database.KeepsLog (db : Database) (lines : List Entry) : Prop where
  rows : List.Forall₂ (fun r e => LogRow.read r = .ok e) db.logs lines
  ordered : db.logs.Pairwise fun r s => r.id < s.id
  numbered : ∀ r ∈ db.logs, 1 ≤ r.id ∧ r.id ≤ db.lastLog
  last : 0 ≤ db.lastLog ∧ db.lastLog ≤ Cell.highest

/-- The lines have times that a clock can show. -/
def Timely (entries : List Entry) : Prop := ∀ e ∈ entries, e.createdAt.Valid

def logRow (id : Int) (e : Entry) : LogRow :=
  { id, level := e.level, target := e.target, message := e.message
    createdAt := Time.storedText e.createdAt }

theorem read_logRow (id : Int) {e : Entry} (h : e.createdAt.Valid) :
    (logRow id e).read = .ok e := by
  have htime : readTime 3 (Time.storedText e.createdAt) = .ok e.createdAt :=
    readTime_eq_ok_iff.mpr (Time.parseTime?_storedText h)
  rw [LogRow.read, logRow, htime]
  rfl

section Log

variable {db : Database} {lines : List Entry}

theorem keepsLog_empty : ({} : Database).KeepsLog [] :=
  ⟨.nil, .nil, fun _ h => absurd h List.not_mem_nil, by decide⟩

theorem Database.KeepsLog.congr (h : db.KeepsLog lines) {after : Database}
    (hlogs : after.logs = db.logs) (hlast : after.lastLog = db.lastLog) : after.KeepsLog lines := by
  obtain ⟨rows, ordered, numbered, last⟩ := h
  constructor <;> simp only [hlogs, hlast] <;> assumption

/-- The tables with one more line in the log. -/
def Database.withLine (db : Database) (e : Entry) : Database :=
  { db with logs := db.logs ++ [logRow (db.lastLog + 1) e], lastLog := db.lastLog + 1 }

theorem Database.KeepsLog.withLine (h : db.KeepsLog lines) {e : Entry} (htime : e.createdAt.Valid)
    (hroom : ¬ Cell.highest < db.lastLog + 1) : (db.withLine e).KeepsLog (lines ++ [e]) := by
  refine ⟨?_, ?_, fun r hr => ?_, ?_⟩
  · exact List.rel_append h.rows (.cons (read_logRow _ htime) .nil)
  · refine List.pairwise_append.mpr ⟨h.ordered, List.pairwise_singleton .., fun r hr s hs => ?_⟩
    rw [List.mem_singleton.mp hs]
    exact Int.lt_add_one_of_le (h.numbered r hr).2
  · show 1 ≤ r.id ∧ r.id ≤ db.lastLog + 1
    rcases List.mem_append.mp hr with hr | hr
    · have := h.numbered r hr
      omega
    · have hid : r.id = db.lastLog + 1 := by rw [List.mem_singleton.mp hr]; rfl
      have := h.last.1
      omega
  · have := h.last.1
    exact ⟨by show 0 ≤ db.lastLog + 1; omega, Int.not_lt.mp hroom⟩

theorem Statements.exec_insertLog (h : db.KeepsLog lines) (e : Entry) :
    exec (insertLog e) db =
      if Cell.highest < db.lastLog + 1 then (.error full, db) else (.ok (), db.withLine e) := by
  have hnext : nextId db.lastLog (db.logs.map (·.id)) = db.lastLog + 1 := by
    refine nextId_eq fun id hid => ?_
    obtain ⟨r, hr, rfl⟩ := List.mem_map.mp hid
    exact (h.numbered r hr).2
  have hnew := exec_newId db.lastLog (db.logs.map (·.id)) db
  rw [hnext] at hnew
  rw [insertLog, exec_bind_of_ok (exec_get db)]
  split
  · rename_i hfull
    rw [if_pos hfull] at hnew
    exact exec_bind_of_error hnew
  · rename_i hroom
    rw [if_neg hroom] at hnew
    rw [exec_bind_of_ok hnew]
    rfl

/-- Line after line is put at the end of the log, as long as there are numbers for them. -/
theorem Statements.exec_insertLogs (h : db.KeepsLog lines) {entries : List Entry}
    (htimes : Timely entries) :
    (∃ after, exec (entries.forM insertLog) db = (.ok (), after) ∧
      after.KeepsLog (lines ++ entries)) ∨
    ∃ fault during, exec (entries.forM insertLog) db = (.error fault, during) := by
  -- what is in the log counts as held before, line after line
  induction entries generalizing db lines with
  | nil => exact .inl ⟨db, rfl, by rwa [List.append_nil]⟩
  | cons e entries ih =>
    have hfirst : (e :: entries).forM insertLog = insertLog e >>= fun _ => entries.forM insertLog :=
      rfl
    have hinsert := exec_insertLog h e
    rw [hfirst]
    split at hinsert
    · exact .inr ⟨_, _, exec_bind_of_error hinsert⟩
    · rename_i hroom
      rw [exec_bind_of_ok hinsert, List.append_cons]
      exact ih (h.withLine (htimes e (List.mem_cons_self ..)) hroom)
        fun e' he' => htimes e' (List.mem_cons_of_mem _ he')

/-- A batch is put at the end of the log, or nothing of it is written. -/
theorem addLogs_cases {store : Store} (h : store.database.KeepsLog lines) {entries : List Entry}
    (htimes : Timely entries) :
    (∃ after, store.addLogs entries = (.ok (), { store with database := after }) ∧
      after.KeepsLog (lines ++ entries)) ∨
    ∃ fault, store.addLogs entries = (.error fault, store) := by
  rcases Statements.exec_insertLogs h htimes with ⟨after, hexec, hkeeps⟩ | ⟨fault, during, hexec⟩
  · refine .inl ⟨after, ?_, hkeeps⟩
    rw [addLogs, Store.transact, Statements.transact_of_ok hexec]
  · exact .inr ⟨fault, transact_of_exec_error hexec⟩

/-- The newest lines are read, newest first. -/
theorem logs_eq {store : Store} (h : store.database.KeepsLog lines) (limit : Nat) :
    store.logs limit = .ok (lines.reverse.take limit) := by
  have horder : inOrder (fun r s : LogRow => s.id ≤ r.id) store.database.logs =
      store.database.logs.reverse :=
    inOrder_eq_reverse (h.ordered.imp fun hlt => decide_eq_false (Int.not_le.mpr hlt))
  have hlength : store.database.logs.reverse.length < Number.limit63 := by
    rw [List.length_reverse]
    by_cases hnil : store.database.logs = []
    · rw [hnil]
      decide
    · have hle := length_le_of_ids h.ordered (fun r hr => (h.numbered r hr).1)
        (fun r hr => (h.numbered r hr).2) hnil
      have hlast := h.last.2
      unfold Cell.highest at hlast
      omega
  rw [logs, horder, upTo_eq_take hlength, readAll_eq_ok_iff]
  exact List.forall₂_take _ (List.rel_reverse h.rows)

end Log

/-! ### Other writes -/

namespace Statements

variable {α : Type}

theorem keeps_throw {γ : Type} {p : Database → γ} (e : Fault) :
    Keeps p (throw e : Statements α) := fun _ => rfl

section Hosts

variable {γ : Type} {p : Database → γ}
  (hp : ∀ (db : Database) hosts checks latest counters lastHost,
    p { db with hosts, checks, latest, counters, lastHost } = p db)

include hp

theorem keeps_setHosts (rows : List HostRow) : Keeps p (setHosts rows) := by
  unfold setHosts
  split
  · exact keeps_throw _
  · exact keeps_modify fun db => hp db _ db.checks db.latest db.counters db.lastHost

theorem keeps_updateHosts (q : HostRow → Bool) (change : HostRow → HostRow) :
    Keeps p (updateHosts q change) :=
  keeps_bind keeps_get fun _ => keeps_setHosts hp _

theorem keeps_insertHost (row : Int → HostRow) : Keeps p (insertHost row) := by
  refine keeps_bind keeps_get fun db => keeps_bind (keeps_newId _ _) fun id => ?_
  refine keeps_bind (keeps_setHosts hp _) fun _ => ?_
  exact keeps_bind (keeps_modify fun db => hp db db.hosts db.checks db.latest db.counters _)
    fun _ => keeps_pure id

theorem keeps_deleteHost (id : Int) : Keeps p (deleteHost id) :=
  keeps_modify fun db => hp db _ _ _ _ db.lastHost

theorem keeps_releaseAddresses (identity : Identity) (keep : Int) :
    Keeps p (releaseAddresses identity keep) := by
  unfold releaseAddresses
  extract_lets others next
  have hnext (u : Unit) : Keeps p (next u) := by
    unfold next
    split
    · exact keeps_updateHosts hp _ _
    · exact keeps_pure ()
  split
  · exact keeps_bind (keeps_updateHosts hp _ _) hnext
  · exact hnext ()

/-- To record what a peer says of itself leaves what depends on neither hosts nor checks. -/
theorem keeps_upsertHost (identity : Identity) (now : String) :
    Keeps p (upsertHost identity now) := by
  unfold upsertHost
  refine keeps_bind (keeps_ask _) fun hostname => keeps_bind (keeps_ask _) fun self => ?_
  extract_lets found place
  have hplace (u : Unit) : Keeps p (place u) := by
    refine keeps_bind keeps_get fun db => ?_
    split
    · refine keeps_bind (keeps_releaseAddresses hp _ _) fun _ => ?_
      refine keeps_bind (keeps_updateHosts hp _ _) fun _ => ?_
      exact keeps_bind (keeps_pure _) fun _ => keeps_ask _
    · refine keeps_bind (keeps_releaseAddresses hp _ _) fun _ => ?_
      exact keeps_bind (keeps_insertHost hp _) fun _ => keeps_ask _
  split
  · split
    · exact keeps_bind (keeps_throw _) hplace
    · exact hplace ()
  · exact hplace ()

theorem keeps_writeSelf (identity : Identity) (started : Bool) (now : String) :
    Keeps p (writeSelf identity started now) := by
  unfold writeSelf
  refine keeps_bind (keeps_ask _) fun hostname => keeps_bind keeps_get fun db => ?_
  extract_lets found write
  have hwrite (u : Unit) : Keeps p (write u) := by
    refine keeps_bind (keeps_ask _) fun self => ?_
    split
    · refine keeps_bind (keeps_releaseAddresses hp _ _) fun _ => ?_
      exact keeps_bind (keeps_updateHosts hp _ _) fun _ => keeps_ask _
    · refine keeps_bind (keeps_releaseAddresses hp _ _) fun _ => ?_
      split
      · exact keeps_bind (keeps_insertHost hp _) fun _ => keeps_ask _
      · exact keeps_bind (keeps_throw _) fun _ => keeps_ask _
  split
  · exact keeps_bind (keeps_deleteHost hp _) hwrite
  · exact hwrite ()

end Hosts

end Statements

/-- The log, with the highest number that it has given out. -/
def Database.journal (db : Database) : List LogRow × Int := (db.logs, db.lastLog)

/-- The write is of log lines. -/
def Write.isLog : Write → Bool
  | .addLogs _ => true
  | _ => false

theorem journal_transact {α : Type} {s : Statements α} (h : Statements.Keeps Database.journal s)
    (store : Store) : (store.transact s).2.database.journal = store.database.journal :=
  h.transact store.database

theorem journal_deleteHost (store : Store) (id : Int) :
    (store.deleteHost id).2.database.journal = store.database.journal := by
  refine journal_transact ?_ store
  refine Statements.keeps_bind (Statements.keeps_ask _) fun host => ?_
  extract_lets delete
  have hdelete (u : Unit) : Statements.Keeps Database.journal (delete u) :=
    Statements.keeps_deleteHost (fun _ _ _ _ _ _ => rfl) id
  split
  · exact Statements.keeps_bind (Statements.keeps_throw _) hdelete
  · exact hdelete ()

/-- No other write touches the log. -/
theorem journal_apply (store : Store) {w : Write} (hw : w.isLog = false) :
    (store.apply w).database.journal = store.database.journal := by
  cases w with
  | upsertHost now identity =>
    exact journal_transact (Statements.keeps_upsertHost (fun _ _ _ _ _ _ => rfl) identity _) store
  | deleteHost id => exact journal_deleteHost store id
  | registerStart now identity =>
    exact journal_transact (Statements.keeps_writeSelf (fun _ _ _ _ _ _ => rfl) identity true _)
      store
  | refreshSelf now identity =>
    exact journal_transact (Statements.keeps_writeSelf (fun _ _ _ _ _ _ => rfl) identity false _)
      store
  | recordCheck now host result =>
    exact journal_transact (Statements.keeps_writeCheck (fun _ _ _ _ _ => rfl) host result
      store.historyLimit _) store
  | addLogs entries => cases hw
  | reopen limit => rfl

end PeerHealth.Store
