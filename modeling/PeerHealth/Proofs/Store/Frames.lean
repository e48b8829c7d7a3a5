import PeerHealth.Proofs.Store.CheckWrites
import PeerHealth.Proofs.Store.Runs

/-! What writes of hosts leave of the checks: all that is kept of hosts that are still there or may
still come. -/

namespace PeerHealth.Store

/-- The number is a host's or may still become one's. -/
def Database.Open (db : Database) (id : Int) : Prop :=
  (∃ r ∈ db.hosts, r.id = id) ∨ db.lastHost < id

/-- All numbers open in `after` are open in `db`, and what is kept of checks under them is the
same. -/
structure Database.Frame (db after : Database) : Prop where
  lastCheck : after.lastCheck = db.lastCheck
  checks : after.checks.Sublist db.checks
  latest : after.latest.Sublist db.latest
  isOpen : ∀ id, after.Open id → db.Open id
  history : ∀ b : Bucket, after.Open b.host →
    after.checks.filter (·.columns.isIn b) = db.checks.filter (·.columns.isIn b)
  slot : ∀ b : Bucket, after.Open b.host →
    after.latest.filter (·.columns.isIn b) = db.latest.filter (·.columns.isIn b)
  counters : ∀ b : Bucket, after.Open b.host →
    after.counters.filter (·.isOf b) = db.counters.filter (·.isOf b)

namespace Database.Frame

variable {db db' db'' : Database}

theorem refl (db : Database) : db.Frame db :=
  ⟨rfl, .refl _, .refl _, fun _ h => h, fun _ _ => rfl, fun _ _ => rfl, fun _ _ => rfl⟩

theorem trans (h : db.Frame db') (h' : db'.Frame db'') : db.Frame db'' :=
  ⟨h'.lastCheck.trans h.lastCheck, h'.checks.trans h.checks, h'.latest.trans h.latest,
    fun id ho => h.isOpen id (h'.isOpen id ho),
    fun b ho => (h'.history b ho).trans (h.history b (h'.isOpen _ ho)),
    fun b ho => (h'.slot b ho).trans (h.slot b (h'.isOpen _ ho)),
    fun b ho => (h'.counters b ho).trans (h.counters b (h'.isOpen _ ho))⟩

theorem of_hosts {hosts : List HostRow} {lastHost : Int} (hlast : db.lastHost ≤ lastHost)
    (hids : ∀ r ∈ hosts, (∃ s ∈ db.hosts, s.id = r.id) ∨ db.lastHost < r.id) :
    db.Frame { db with hosts, lastHost } := by
  refine ⟨rfl, .refl _, .refl _, fun id ho => ?_, fun _ _ => rfl, fun _ _ => rfl, fun _ _ => rfl⟩
  rcases ho with ⟨r, hr, rfl⟩ | hlt
  · exact hids r hr
  · exact .inr (Int.lt_of_le_of_lt hlast hlt)

theorem of_change (identity : Identity) (id : Int) {f : HostRow → HostRow}
    (hid : ∀ r, (f r).id = r.id) :
    db.Frame { db with hosts := (db.hosts.map (HostRow.release identity id)).map fun r : HostRow =>
      if r.id = id then f r else r } := by
  refine of_hosts (Int.le_refl _) fun r hr => .inl ?_
  obtain ⟨r1, hr1, rfl⟩ := List.mem_map.mp hr
  obtain ⟨r0, hr0, rfl⟩ := List.mem_map.mp hr1
  refine ⟨r0, hr0, ?_⟩
  split
  · rw [hid, (r0.stripped_release identity id).id]
  · rw [(r0.stripped_release identity id).id]

theorem of_add (identity : Identity) {row : HostRow} (hid : row.id = db.lastHost + 1) :
    db.Frame { db with
      hosts := db.hosts.map (HostRow.release identity 0) ++ [row]
      lastHost := db.lastHost + 1 } := by
  refine of_hosts (by omega) ?_
  intro r hr
  rcases List.mem_append.mp hr with hr | hr
  · obtain ⟨r0, hr0, rfl⟩ := List.mem_map.mp hr
    exact .inl ⟨r0, hr0, (r0.stripped_release identity 0).id.symm⟩
  · rw [List.mem_singleton.mp hr]
    exact .inr (by omega)

theorem of_without {r : HostRow} (hdb : db.HostsSound) (hr : r ∈ db.hosts) :
    db.Frame (db.without r.id) := by
  have hopen : ∀ id, (db.without r.id).Open id → id ≠ r.id ∧ db.Open id := by
    rintro id (⟨s, hs, rfl⟩ | hlt)
    · obtain ⟨hs, hne⟩ := mem_without.mp hs
      exact ⟨hne, .inl ⟨s, hs, rfl⟩⟩
    · have hnum := (hdb.numbered r hr).2
      have hlt' : db.lastHost < id := hlt
      exact ⟨by omega, .inr hlt⟩
  have hkept : ∀ (b : Bucket) (columns : CheckColumns), (db.without r.id).Open b.host →
      columns.isIn b = true → columns.host.isNumber r.id = false := by
    intro b columns ho hin
    simp only [CheckColumns.isIn, Bool.and_eq_true] at hin
    refine Bool.eq_false_iff.mpr fun hid => (hopen _ ho).1 ?_
    exact Cell.isNumber_unique hin.1.1 hid
  refine ⟨rfl, List.filter_sublist, List.filter_sublist, fun id ho => (hopen id ho).2,
    fun b ho => ?_, fun b ho => ?_, fun b ho => ?_⟩
  · refine List.filter_filter.trans (List.filter_congr fun s _ => ?_)
    cases hin : s.columns.isIn b with
    | false => rfl
    | true => rw [hkept b s.columns ho hin]; rfl
  · refine List.filter_filter.trans (List.filter_congr fun s _ => ?_)
    cases hin : s.columns.isIn b with
    | false => rfl
    | true => rw [hkept b s.columns ho hin]; rfl
  · refine List.filter_filter.trans (List.filter_congr fun s _ => ?_)
    cases hin : s.isOf b with
    | false => rfl
    | true =>
      simp only [CounterRow.isOf, Bool.and_eq_true] at hin
      have hid : s.host.isNumber r.id = false :=
        Bool.eq_false_iff.mpr fun hid => (hopen _ ho).1 (Cell.isNumber_unique hin.1.1 hid)
      rw [hid]
      rfl

theorem checksSound (h : db.Frame db') (hdb : db.ChecksSound) : db'.ChecksSound := by
  refine ⟨fun r hr => hdb.checks r (h.checks.subset hr),
    fun r hr => hdb.latest r (h.latest.subset hr), hdb.ordered.sublist h.checks,
    fun r hr => ?_, ?_⟩
  · rw [h.lastCheck]
    exact hdb.numbered r (h.checks.subset hr)
  · rw [h.lastCheck]
    exact hdb.lastCheck

end Database.Frame

section Writes

variable {db after : Database} {identity : Identity} {now : String}

theorem Upserted.frame {answer : Except Fault Host} (h : Upserted db identity now answer after) :
    db.Frame after := by
  cases h with
  | unnamed => exact .refl db
  | own => exact .refl db
  | merged named free mem isPeer found => exact .of_change identity _ fun _ => rfl
  | created named free none room => exact .of_add identity rfl
  | full => exact .refl db

theorem Database.HostsSound.frame_freed (hdb : db.HostsSound) (hostname : String) :
    db.Frame (db.freed hostname) := by
  rcases db.freed_eq hostname with heq | ⟨r, hr, -, -, heq⟩
  · rw [heq]
    exact .refl db
  · rw [heq]
    exact .of_without hdb hr

theorem SelfWritten.frame {started : Bool} {answer : Except Fault PeerHealth.SelfRecord}
    (h : SelfWritten db identity started now answer after) (hdb : db.HostsSound) :
    db.Frame after := by
  have hfreed := hdb.frame_freed (Text.trim identity.hostname)
  cases h with
  | unnamed => exact .refl db
  | rewritten named mem isSelf fits =>
    exact hfreed.trans (.of_change identity _ fun r => (r.rewrite_fields identity _ started now).1)
  | worn => exact .refl db
  | started named peers starts room =>
    refine hfreed.trans (.of_add identity ?_)
    rw [Database.lastHost_freed]
    rfl
  | notStarted => exact .refl db
  | full => exact .refl db

theorem Deleted.frame {id : Int} {answer : Except Fault Unit} (h : Deleted db id answer after)
    (hdb : db.HostsSound) : db.Frame after := by
  cases h with
  | missing => exact .refl db
  | own => exact .refl db
  | deleted mem isPeer hid =>
    rw [← hid]
    exact .of_without hdb mem

theorem Database.Frame.of_unlogged (h : after.unlogged = db.unlogged) : db.Frame after := by
  have hhosts := congrArg Database.hosts h
  have hlast := congrArg Database.lastHost h
  have hchecks := congrArg Database.checks h
  have hlatest := congrArg Database.latest h
  have hcounters := congrArg Database.counters h
  have hlastCheck := congrArg Database.lastCheck h
  simp only [Database.unlogged] at hhosts hlast hchecks hlatest hcounters hlastCheck
  have hopen : ∀ id, after.Open id → db.Open id := by
    intro id ho
    rwa [Database.Open, hhosts, hlast] at ho
  refine ⟨hlastCheck, ?_, ?_, hopen, fun b _ => ?_, fun b _ => ?_, fun b _ => ?_⟩
  · exact hchecks ▸ .refl _
  · exact hlatest ▸ .refl _
  · rw [hchecks]
  · rw [hlatest]
  · rw [hcounters]

end Writes

/-- The write records a check. -/
def Write.isCheck : Write → Bool
  | .recordCheck .. => true
  | _ => false

/-- No write but that of a check touches what is kept of hosts that stay. -/
theorem frame_apply {store : Store} (hdb : store.database.HostsSound) {w : Write}
    (hw : w.isCheck = false) : store.database.Frame (store.apply w).database := by
  cases w with
  | upsertHost now identity =>
    obtain ⟨answer, after, hrun, h⟩ := upsertHost_upserted hdb now identity
    rw [Store.apply, hrun]
    exact h.frame
  | deleteHost id =>
    obtain ⟨answer, after, hrun, h⟩ := deleteHost_deleted hdb id
    rw [Store.apply, hrun]
    exact h.frame hdb
  | registerStart now identity =>
    obtain ⟨answer, after, hrun, h⟩ := registerStart_selfWritten hdb now identity
    rw [Store.apply, hrun]
    exact h.frame hdb
  | refreshSelf now identity =>
    obtain ⟨answer, after, hrun, h⟩ := refreshSelf_selfWritten hdb now identity
    rw [Store.apply, hrun]
    exact h.frame hdb
  | recordCheck now host result => cases hw
  | addLogs entries => exact .of_unlogged (store.addLogs_unlogged entries)
  | reopen limit => exact .refl _

end PeerHealth.Store
