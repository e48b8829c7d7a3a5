import PeerHealth.Proofs.Store.Frames

/-! What writes do to hosts and to what is kept of checks, whatever the clock shows. Main
statements: a write of hosts removes at most one of them, with all that was kept of it, and leaves
every other row of checks as it is; a write of a check is refused, or adds to each table what it
should. -/

namespace PeerHealth.Store

/-- No host is gone or turned into the local one, and new ones have new numbers. -/
structure Database.HostsStay (db after : Database) : Prop where
  hosts : ∀ r ∈ db.hosts, ∃ s ∈ after.hosts, s.id = r.id
  numbers : ∀ s ∈ after.hosts,
    (∃ r ∈ db.hosts, r.id = s.id ∧ r.isLocal = s.isLocal) ∨ db.lastHost < s.id
  lastHost : db.lastHost ≤ after.lastHost

/-- The hosts stay, and the checks are as they were. -/
structure Database.HostsKept (db after : Database) : Prop extends db.HostsStay after where
  checks : after.checks = db.checks
  latest : after.latest = db.latest
  counters : after.counters = db.counters
  lastCheck : after.lastCheck = db.lastCheck

namespace Database.HostsStay

variable {db db' db'' : Database}

theorem of_eq (hhosts : db'.hosts = db.hosts) (hlast : db'.lastHost = db.lastHost) :
    db.HostsStay db' :=
  ⟨fun r hr => ⟨r, hhosts ▸ hr, rfl⟩, fun s hs => .inl ⟨s, hhosts ▸ hs, rfl, rfl⟩,
    Int.le_of_eq hlast.symm⟩

theorem trans (h : db.HostsStay db') (h' : db'.HostsStay db'') : db.HostsStay db'' := by
  refine ⟨fun r hr => ?_, fun s hs => ?_, Int.le_trans h.lastHost h'.lastHost⟩
  · obtain ⟨r', hr', hid⟩ := h.hosts r hr
    obtain ⟨s, hs, hid'⟩ := h'.hosts r' hr'
    exact ⟨s, hs, hid'.trans hid⟩
  · rcases h'.numbers s hs with ⟨r', hr', hid', hlocal'⟩ | hnew
    · rcases h.numbers r' hr' with ⟨r, hr, hid, hlocal⟩ | hnew
      · exact .inl ⟨r, hr, hid.trans hid', hlocal.trans hlocal'⟩
      · exact .inr (hid' ▸ hnew)
    · exact .inr (Int.lt_of_le_of_lt h.lastHost hnew)

/-- No peer from before has the number of the local host, or of one that is new. -/
theorem ne_of_isPeer (hdb : db.HostsSound) (h : db.HostsStay db') {r s : HostRow}
    (hr : r ∈ db.hosts) (hpeer : r.isPeer = true) (hs : s ∈ db'.hosts)
    (hother : s.isSelf = true ∨ db.lastHost < s.id) : r.id ≠ s.id := by
  intro hid
  have hold := (hdb.numbered r hr).2
  rcases hother with hself | hnew
  · rcases h.numbers s hs with ⟨r', hr', hid', hlocal⟩ | hnew
    · rw [hdb.distinct.eq_of_id hr' hr (hid'.trans hid.symm)] at hlocal
      rw [HostRow.isPeer_iff] at hpeer
      rw [HostRow.isSelf_iff, ← hlocal, hpeer] at hself
      cases hself
    · omega
  · omega

end Database.HostsStay

namespace Database.HostsKept

variable {db db' db'' : Database}

theorem refl (db : Database) : db.HostsKept db := ⟨.of_eq rfl rfl, rfl, rfl, rfl, rfl⟩

theorem trans (h : db.HostsKept db') (h' : db'.HostsKept db'') : db.HostsKept db'' :=
  ⟨h.toHostsStay.trans h'.toHostsStay, h'.checks.trans h.checks, h'.latest.trans h.latest,
    h'.counters.trans h.counters, h'.lastCheck.trans h.lastCheck⟩

theorem of_change (db : Database) (identity : Identity) (id : Int) {f : HostRow → HostRow}
    (hf : ∀ r, (f r).id = r.id ∧ (f r).isLocal = r.isLocal) :
    db.HostsKept { db with
      hosts := (db.hosts.map (HostRow.release identity id)).map fun r : HostRow =>
        if r.id = id then f r else r } := by
  let g : HostRow → HostRow := fun r =>
    if (r.release identity id).id = id then f (r.release identity id) else r.release identity id
  have hg : ∀ r, (g r).id = r.id ∧ (g r).isLocal = r.isLocal := by
    intro r
    have hstripped := r.stripped_release identity id
    simp only [g]
    split <;> simp [hf, hstripped.id, hstripped.isLocal]
  have hmap : (db.hosts.map (HostRow.release identity id)).map
      (fun r : HostRow => if r.id = id then f r else r) = db.hosts.map g := by
    rw [List.map_map]
    rfl
  rw [hmap]
  refine ⟨⟨fun r hr => ⟨g r, List.mem_map_of_mem hr, (hg r).1⟩, fun s hs => .inl ?_,
    Int.le_refl _⟩, rfl, rfl, rfl, rfl⟩
  obtain ⟨r, hr, rfl⟩ := List.mem_map.mp hs
  exact ⟨r, hr, (hg r).1.symm, (hg r).2.symm⟩

theorem of_add (db : Database) (identity : Identity) {row : HostRow}
    (hid : row.id = db.lastHost + 1) :
    db.HostsKept { db with
      hosts := db.hosts.map (HostRow.release identity 0) ++ [row]
      lastHost := db.lastHost + 1 } := by
  refine ⟨⟨fun r hr => ⟨r.release identity 0, ?_, (r.stripped_release identity 0).id⟩,
    fun s hs => ?_, Int.le_add_one (Int.le_refl _)⟩, rfl, rfl, rfl, rfl⟩
  · exact List.mem_append_left _ (List.mem_map_of_mem hr)
  · rcases List.mem_append.mp hs with hs | hs
    · obtain ⟨r, hr, rfl⟩ := List.mem_map.mp hs
      have hstripped := r.stripped_release identity 0
      exact .inl ⟨r, hr, hstripped.id.symm, hstripped.isLocal.symm⟩
    · rw [List.mem_singleton.mp hs, hid]
      exact .inr (by omega)

end Database.HostsKept

/-- At most one peer is gone, with all that was kept of it. -/
def Database.AtMostOneGone (db after : Database) : Prop :=
  db.HostsKept after ∨ ∃ r ∈ db.hosts, r.isPeer = true ∧ (db.without r.id).HostsKept after

theorem Upserted.hostsKept {db after : Database} {identity : Identity} {now : String}
    {answer : Except Fault Host} (h : Upserted db identity now answer after) :
    db.HostsKept after := by
  cases h with
  | unnamed => exact .refl db
  | own => exact .refl db
  | merged => exact .of_change db identity _ fun _ => ⟨rfl, rfl⟩
  | created => exact .of_add db identity rfl
  | full => exact .refl db

theorem Database.atMostOneGone_freed {db after : Database} {hostname : String}
    (h : (db.freed hostname).HostsKept after) : db.AtMostOneGone after := by
  rcases db.freed_eq hostname with heq | ⟨r, hr, hp, -, heq⟩
  · exact .inl (heq ▸ h)
  · exact .inr ⟨r, hr, hp, heq ▸ h⟩

theorem SelfWritten.atMostOneGone {db after : Database} {identity : Identity} {started : Bool}
    {now : String} {answer : Except Fault PeerHealth.SelfRecord}
    (h : SelfWritten db identity started now answer after) : db.AtMostOneGone after := by
  cases h with
  | unnamed => exact .inl (.refl db)
  | rewritten =>
    refine Database.atMostOneGone_freed (.of_change _ identity _ fun r => ?_)
    obtain ⟨hid, -, hlocal, -⟩ :=
      r.rewrite_fields identity (Text.trim identity.hostname) started now
    exact ⟨hid, hlocal⟩
  | worn => exact .inl (.refl db)
  | started => exact Database.atMostOneGone_freed (.of_add _ identity rfl)
  | notStarted => exact .inl (.refl db)
  | full => exact .inl (.refl db)

theorem Deleted.atMostOneGone {db after : Database} {id : Int} {answer : Except Fault Unit}
    (h : Deleted db id answer after) : db.AtMostOneGone after := by
  cases h with
  | missing => exact .inl (.refl db)
  | own => exact .inl (.refl db)
  | deleted mem isPeer hid => exact .inr ⟨_, mem, isPeer, hid ▸ .refl _⟩

/-- What a write that is not of a check does to the hosts and the checks. -/
theorem atMostOneGone_apply {store : Store} (hdb : store.database.HostsSound) {w : Write}
    (hw : w.isCheck = false) : store.database.AtMostOneGone (store.apply w).database := by
  cases w with
  | upsertHost now identity =>
    obtain ⟨answer, after, hrun, h⟩ := upsertHost_upserted hdb now identity
    rw [Store.apply, hrun]
    exact .inl h.hostsKept
  | deleteHost id =>
    obtain ⟨answer, after, hrun, h⟩ := deleteHost_deleted hdb id
    rw [Store.apply, hrun]
    exact h.atMostOneGone
  | registerStart now identity =>
    obtain ⟨answer, after, hrun, h⟩ := registerStart_selfWritten hdb now identity
    rw [Store.apply, hrun]
    exact h.atMostOneGone
  | refreshSelf now identity =>
    obtain ⟨answer, after, hrun, h⟩ := refreshSelf_selfWritten hdb now identity
    rw [Store.apply, hrun]
    exact h.atMostOneGone
  | recordCheck now host result => cases hw
  | addLogs entries =>
    have h := store.addLogs_unlogged entries
    simp only [Database.unlogged, Database.mk.injEq] at h
    obtain ⟨hhosts, hchecks, hlatest, hcounters, -, hlastHost, hlastCheck, -⟩ := h
    exact .inl ⟨.of_eq hhosts hlastHost, hchecks, hlatest, hcounters, hlastCheck⟩
  | reopen limit => exact .inl (.refl _)

theorem hosts_apply_of_isCheck (store : Store) {w : Write} (hw : w.isCheck = true) :
    (store.apply w).database.hosts = store.database.hosts ∧
      (store.apply w).database.lastHost = store.database.lastHost := by
  cases w with
  | recordCheck now host result => exact store.recordCheck_hosts now.1 host result
  | _ => cases hw

/-- The row that a check is kept as in the history. -/
def Database.newRow (db : Database) (host : Int) (result : CheckResult) (now : String) : CheckRow :=
  ⟨Statements.nextCheck db, columnsOf host result now⟩

/-- The tables with a check written. -/
def Database.logged (db : Database) (host : Int) (result : CheckResult) (now : String)
    (limit : Nat) : Database :=
  { db with
    checks := trimmed (db.checks ++ [db.newRow host result now]) (bucketOf host result) limit
    latest := putLatest db.latest (bucketOf host result)
      ⟨.whole (Statements.nextCheck db), columnsOf host result now⟩
    counters := countCheck db.counters (bucketOf host result) result.status
    lastCheck := Statements.nextCheck db }

/-- All that writing a check can come to, whatever the clock shows. -/
inductive Logged (db : Database) (host : Int) (result : CheckResult) (now : String) (limit : Nat) :
    Except Fault Check → Database → Prop
  | refused (fault : Fault) : Logged db host result now limit (.error fault) db
  | logged {r : HostRow} (c : Check) (mem : r ∈ db.hosts) (hid : r.id = host)
      (room : Statements.nextCheck db ≤ Cell.highest)
      (kept : db.newRow host result now ∈ (db.logged host result now limit).checks) :
      Logged db host result now limit (.ok c) (db.logged host result now limit)

theorem Statements.lt_nextId (last : Int) (ids : List Int) :
    last < nextId last ids ∧ ∀ id ∈ ids, id < nextId last ids := by
  simp only [nextId]
  induction ids generalizing last with
  | nil => exact ⟨Int.lt_add_one_of_le (Int.le_refl _), fun _ h => absurd h List.not_mem_nil⟩
  | cons i ids ih =>
    obtain ⟨hlast, hids⟩ := ih (max last i)
    rw [List.foldl_cons]
    refine ⟨by omega, fun id hid => ?_⟩
    rcases List.mem_cons.mp hid with rfl | hid
    · omega
    · exact hids id hid

theorem Database.mem_of_hostById {db : Database} {id : Int} {host : Host}
    (h : db.hostById id = .ok host) : ∃ r ∈ db.hosts, r.id = id := by
  rw [hostById, hostWhere] at h
  cases hf : db.hosts.find? (·.id = id) with
  | none => rw [hf] at h; cases h
  | some r => exact ⟨r, List.mem_of_find?_eq_some hf, by simpa using List.find?_some hf⟩

/-- A host that is found is told by a row. -/
theorem Database.HostsSound.exists_tells {db : Database} (hdb : db.HostsSound) {id : Int}
    {host : Host} (h : db.hostById id = .ok host) :
    ∃ r ∈ db.hosts, r.id = id ∧ r.Tells host := by
  obtain ⟨r, mem, rfl⟩ := Database.mem_of_hostById h
  obtain ⟨found, tells⟩ := (hdb.rows r mem).read
  rw [Database.hostById_eq_ok hdb.distinct mem tells] at h
  cases h
  exact ⟨r, mem, rfl, tells⟩

/-- The check with a number, as its row reads. -/
def Database.checkById (db : Database) (id : Int) : Except Fault Check :=
  match db.checks.find? (·.id = id) with
  | some r => ofTable r.read
  | none => .error (.table .missingRow)

theorem Database.eq_newRow {db : Database} {host : Int} {result : CheckResult} {now : String}
    {limit : Nat} {r : CheckRow} (hr : r ∈ (db.logged host result now limit).checks)
    (hid : r.id = Statements.nextCheck db) : r = db.newRow host result now := by
  have hmem := (trimmed_sublist _ _ _).subset hr
  rcases List.mem_append.mp hmem with hmem | hmem
  · have hlt := (Statements.lt_nextId db.lastCheck (db.checks.map (·.id))).2 r.id
      (List.mem_map_of_mem hmem)
    rw [Statements.nextCheck] at hid
    omega
  · exact List.mem_singleton.mp hmem

/-- A check of a host that reads is put into each table and then read back. -/
theorem Statements.exec_writeCheck {db : Database} {host : Int} {found : Host}
    (hfound : db.hostById host = .ok found) (room : nextCheck db ≤ Cell.highest)
    (result : CheckResult) (now : String) (limit : Nat) :
    exec (writeCheck host result limit now (pure ())) db =
      ((db.logged host result now limit).checkById (nextCheck db),
        db.logged host result now limit) := by
  have hask : exec (ask (·.hostById host)) db = (.ok found, db) := by rw [exec_ask, hfound]
  have hinsert := exec_insertCheck (columnsOf host result now) db
  rw [if_neg (Int.not_lt.mpr room)] at hinsert
  rw [writeCheck_eq, exec_bind_of_ok hask, exec_bind_of_ok hinsert, keepCheck,
    exec_bind_of_ok (exec_modify _ _), exec_bind_of_ok (exec_pure () _),
    exec_bind_of_ok (exec_modify _ _), exec_bind_of_ok (exec_modify _ _), exec_ask]
  rfl

theorem Statements.writeCheck_logged (db : Database) (host : Int) (result : CheckResult)
    (now : String) (limit : Nat) :
    ∃ answer after, (writeCheck host result limit now (pure ())).transact db = (answer, after) ∧
      Logged db host result now limit answer after := by
  cases hfound : db.hostById host with
  | error fault =>
    have hask : exec (ask (·.hostById host)) db = (.error fault, db) := by rw [exec_ask, hfound]
    exact ⟨_, _, transact_of_error (exec_bind_of_error hask), .refused fault⟩
  | ok found =>
    by_cases hroom : Cell.highest < nextCheck db
    · have hask : exec (ask (·.hostById host)) db = (.ok found, db) := by rw [exec_ask, hfound]
      have hinsert := exec_insertCheck (columnsOf host result now) db
      rw [if_pos hroom] at hinsert
      exact ⟨_, _, transact_of_error ((exec_bind_of_ok hask).trans (exec_bind_of_error hinsert)),
        .refused _⟩
    · have hexec := exec_writeCheck hfound (Int.not_lt.mp hroom) result now limit
      cases hrow : (db.logged host result now limit).checks.find? (·.id = nextCheck db) with
      | none =>
        rw [Database.checkById, hrow] at hexec
        exact ⟨_, _, transact_of_error hexec, .refused _⟩
      | some r =>
        have hr := List.mem_of_find?_eq_some hrow
        have hnew := db.eq_newRow hr (by simpa using List.find?_some hrow)
        rw [Database.checkById, hrow] at hexec
        cases hread : ofTable r.read with
        | error fault =>
          simp only [hread] at hexec
          exact ⟨_, _, transact_of_error hexec, .refused fault⟩
        | ok c =>
          simp only [hread] at hexec
          obtain ⟨s, hs, hid⟩ := Database.mem_of_hostById hfound
          exact ⟨_, _, transact_of_ok hexec, .logged c hs hid (Int.not_lt.mp hroom) (hnew ▸ hr)⟩

theorem recordCheck_logged (store : Store) (now : Time.Instant) (host : Int)
    (result : CheckResult) :
    ∃ answer after, store.recordCheck now host result = (answer, { store with database := after }) ∧
      Logged store.database host result (Time.storedText now) store.historyLimit answer after := by
  obtain ⟨answer, after, hrun, h⟩ := Statements.writeCheck_logged store.database host result
    (Time.storedText now) store.historyLimit
  refine ⟨answer, after, ?_, h⟩
  rw [Store.recordCheck, Store.transact, hrun]

end PeerHealth.Store
