import PeerHealth.Store.Checks
import PeerHealth.Store.SelfRecord
import PeerHealth.Store.Logs

/-! How statements run one after the other, and what a transaction makes of them: the tables that
they leave if all of them succeed, and otherwise the tables as they were. -/

namespace PeerHealth.Store

/-- Tables without a host and all that is kept of it. -/
def Database.without (db : Database) (id : Int) : Database :=
  { db with
    hosts := db.hosts.filter (·.id ≠ id)
    checks := db.checks.filter fun r => !r.columns.host.isNumber id
    latest := db.latest.filter fun r => !r.columns.host.isNumber id
    counters := db.counters.filter fun r => !r.host.isNumber id }

namespace Statements

variable {α β : Type}

/-- What the statements answer and the tables they leave, before anything is undone. -/
def exec (s : Statements α) (db : Database) : Except Fault α × Database := s.run.run db

theorem transact_of_ok {s : Statements α} {db after : Database} {a : α}
    (h : exec s db = (.ok a, after)) : s.transact db = (.ok a, after) := by
  rw [exec] at h
  rw [transact, h]

theorem transact_of_error {s : Statements α} {db after : Database} {e : Fault}
    (h : exec s db = (.error e, after)) : s.transact db = (.error e, db) := by
  rw [exec] at h
  rw [transact, h]

theorem transact_congr {s t : Statements α} {db : Database} (h : exec s db = exec t db) :
    s.transact db = t.transact db := by
  simp only [exec] at h
  simp only [transact, h]

theorem exec_pure (a : α) (db : Database) : exec (pure a) db = (.ok a, db) := rfl

theorem exec_get (db : Database) : exec get db = (.ok db, db) := rfl

theorem exec_modify (f : Database → Database) (db : Database) :
    exec (modify f) db = (.ok (), f db) := rfl

/-- Statements after others run on the tables that these leave, unless one of these fails. -/
theorem exec_bind (s : Statements α) (f : α → Statements β) (db : Database) :
    exec (s >>= f) db =
      match exec s db with
      | (.ok a, after) => exec (f a) after
      | (.error e, after) => (.error e, after) := by
  show (s >>= f).run.run db = _
  simp only [ExceptT.run_bind, StateT.run_bind, exec]
  cases h : s.run.run db with
  | mk answer after => cases answer <;> rfl

theorem exec_bind_of_ok {s : Statements α} {f : α → Statements β} {db after : Database} {a : α}
    (h : exec s db = (.ok a, after)) : exec (s >>= f) db = exec (f a) after := by
  rw [exec_bind, h]

theorem exec_bind_of_error {s : Statements α} {f : α → Statements β} {db after : Database}
    {e : Fault} (h : exec s db = (.error e, after)) : exec (s >>= f) db = (.error e, after) := by
  rw [exec_bind, h]

theorem exec_ask (question : Database → Except Fault α) (db : Database) :
    exec (ask question) db = (question db, db) := by
  rw [ask, exec_bind_of_ok (exec_get db)]
  cases question db <;> rfl

/-- The fault of a table that has no number left for another row. -/
def full : Fault := .table (.refused "database or disk is full")

theorem nextId_eq {last : Int} {ids : List Int} (h : ∀ id ∈ ids, id ≤ last) :
    nextId last ids = last + 1 := by
  rw [nextId]
  induction ids with
  | nil => rfl
  | cons id ids ih =>
    rw [List.foldl_cons, Int.max_eq_left (h id (by simp))]
    exact ih fun i hi => h i (by simp [hi])

theorem exec_newId (last : Int) (ids : List Int) (db : Database) :
    exec (newId last ids) db =
      if Cell.highest < nextId last ids then (.error full, db)
      else (.ok (nextId last ids), db) := by
  rw [newId]
  split <;> rfl

/-- The number that the next check gets. -/
def nextCheck (db : Database) : Int := nextId db.lastCheck (db.checks.map (·.id))

theorem exec_insertCheck (columns : CheckColumns) (db : Database) :
    exec (insertCheck columns) db =
      if Cell.highest < nextCheck db then (.error full, db)
      else
        (.ok (nextCheck db),
          { db with
            checks := db.checks ++ [⟨nextCheck db, columns⟩]
            lastCheck := nextCheck db }) := by
  have hnew := exec_newId db.lastCheck (db.checks.map (·.id)) db
  rw [insertCheck, exec_bind_of_ok (exec_get db), nextCheck]
  by_cases hfull : Cell.highest < nextId db.lastCheck (db.checks.map (·.id))
  · rw [if_pos hfull] at hnew
    rw [exec_bind_of_error hnew, if_pos hfull]
  · rw [if_neg hfull] at hnew
    rw [exec_bind_of_ok hnew, if_neg hfull]
    rfl

theorem exec_deleteHost (id : Int) (db : Database) :
    exec (deleteHost id) db = (.ok (), db.without id) := rfl

/-- The statements leave `p` of the tables as it is. -/
def Keeps {γ : Type} (p : Database → γ) (s : Statements α) : Prop :=
  ∀ db, p (exec s db).2 = p db

variable {γ : Type} {p : Database → γ}

theorem keeps_bind {s : Statements α} {f : α → Statements β} (hs : Keeps p s)
    (hf : ∀ a, Keeps p (f a)) : Keeps p (s >>= f) := by
  intro db
  have h := hs db
  rw [exec_bind]
  cases hexec : exec s db with
  | mk answer after =>
    rw [hexec] at h
    cases answer with
    | ok a => exact (hf a after).trans h
    | error e => exact h

theorem keeps_pure (a : α) : Keeps p (pure a) := fun _ => rfl

theorem keeps_get : Keeps p get := fun _ => rfl

theorem keeps_modify {f : Database → Database} (h : ∀ db, p (f db) = p db) :
    Keeps p (modify f) := h

theorem keeps_ask (question : Database → Except Fault α) : Keeps p (ask question) :=
  fun db => by rw [exec_ask]

theorem keeps_newId (last : Int) (ids : List Int) : Keeps p (newId last ids) := by
  intro db
  rw [exec_newId]
  split <;> rfl

theorem Keeps.transact {s : Statements α} (h : Keeps p s) (db : Database) :
    p (s.transact db).2 = p db := by
  cases hexec : exec s db with
  | mk answer after =>
    cases answer with
    | ok a =>
      rw [transact_of_ok hexec]
      have := h db
      rwa [hexec] at this
    | error e => rw [transact_of_error hexec]

end Statements

theorem transact_of_exec_error {α : Type} {store : Store} {s : Statements α} {e : Fault}
    {during : Database} (h : Statements.exec s store.database = (.error e, during)) :
    store.transact s = (.error e, store) := by
  rw [Store.transact, Statements.transact_of_error h]

end PeerHealth.Store
