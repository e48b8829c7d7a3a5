import PeerHealth.Proofs.Store.Runs

/-! Names and addresses in the host table. Main statement: after every run each belongs to one host,
and no host write stumbles over another host's; it fails on the tables only when numbers or starts
can no longer be counted. -/

namespace PeerHealth.Store

/-- What makes a name or an address tell a host: each is held once. -/
structure Database.HostsUnique (db : Database) : Prop where
  named : ∀ r ∈ db.hosts, r.hostname ≠ "" ∧ Text.trim r.hostname = r.hostname
  hostname : db.hosts.Pairwise fun r s => r.hostname ≠ s.hostname
  internal : db.hosts.Pairwise fun r s =>
    r.internalAddress ≠ "" → r.internalAddress ≠ s.internalAddress
  external : db.hosts.Pairwise fun r s => r.publicAddress ≠ "" → r.publicAddress ≠ s.publicAddress
  oneLocal : db.hosts.Pairwise fun r s => r.isPeer = true ∨ s.isPeer = true

theorem Database.HostsSound.unique {db : Database} (h : db.HostsSound) : db.HostsUnique := by
  have hpair : db.hosts.Pairwise fun r s => r ∈ db.hosts ∧ s ∈ db.hosts ∧ r.Apart s :=
    List.Pairwise.and_mem.mp h.distinct
  constructor
  · exact fun r hr => ⟨(h.rows r hr).named, (h.rows r hr).trimmed⟩
  · exact hpair.imp fun ⟨hr, _, ha⟩ => ha.hostname (h.rows _ hr).named
  · exact hpair.imp fun ⟨_, _, ha⟩ => ha.internal
  · exact hpair.imp fun ⟨_, _, ha⟩ => ha.external
  · refine hpair.imp fun {r s} ⟨hr, hs, ha⟩ => ?_
    by_cases hself : r.isSelf = true
    · refine .inr ((h.rows s hs).isPeer_of_not_isSelf fun hs' => ?_)
      rw [ha.self hself] at hs'
      cases hs'
    · exact .inl ((h.rows r hr).isPeer_of_not_isSelf hself)

/-- All numbers for hosts have been given out. -/
def Database.HostsFull (db : Database) : Prop := db.lastHost = Cell.highest

/-- The local host has started as often as can be counted. -/
def Database.Worn (db : Database) : Prop :=
  ∃ self ∈ db.hosts, self.isSelf = true ∧ self.restarts = .whole Cell.highest

theorem Upserted.table_fault {db after : Database} {identity : Identity} {now : String}
    {answer : Except Fault Host} (h : Upserted db identity now answer after) {fault : TableFault}
    (hf : answer = .error (.table fault)) :
    db.HostsFull ∧ fault = .refused "database or disk is full" := by
  cases h with
  | unnamed => cases hf
  | own => cases hf
  | merged => cases hf
  | created => cases hf
  | full named free none last =>
    cases hf
    exact ⟨last, rfl⟩

theorem SelfWritten.table_fault {db after : Database} {identity : Identity} {started : Bool}
    {now : String} {answer : Except Fault PeerHealth.SelfRecord}
    (h : SelfWritten db identity started now answer after) {fault : TableFault}
    (hf : answer = .error (.table fault)) :
    started = true ∧ (db.HostsFull ∧ fault = .refused "database or disk is full" ∨
      db.Worn ∧ fault = .wrongKind 9 "restarts" "Real") := by
  cases h with
  | unnamed => cases hf
  | rewritten => cases hf
  | worn named mem isSelf starts last =>
    cases hf
    exact ⟨starts, .inr ⟨⟨_, mem, isSelf, last⟩, rfl⟩⟩
  | started => cases hf
  | notStarted => cases hf
  | full named peers starts last =>
    cases hf
    exact ⟨starts, .inl ⟨last, rfl⟩⟩

/-- After every run from an empty store names and addresses are held once, and a write of a host
fails on the tables only when there is no number left for it. -/
theorem hostsUnique_after (writes : List Write) :
    (({} : Store).after writes).database.HostsUnique ∧
      (∀ (now : Time.Moment) (identity : Identity) (fault : TableFault),
        ((({} : Store).after writes).upsertHost now.1 identity).1 = .error (.table fault) →
          (({} : Store).after writes).database.HostsFull ∧
            fault = .refused "database or disk is full") ∧
      (∀ (now : Time.Moment) (identity : Identity) (fault : TableFault),
        ((({} : Store).after writes).registerStart now.1 identity).1 = .error (.table fault) →
          (({} : Store).after writes).database.HostsFull ∧
              fault = .refused "database or disk is full" ∨
            (({} : Store).after writes).database.Worn ∧
              fault = .wrongKind 9 "restarts" "Real") ∧
      ∀ (now : Time.Moment) (identity : Identity) (fault : TableFault),
        ((({} : Store).after writes).refreshSelf now.1 identity).1 ≠ .error (.table fault) := by
  have hsound := hostsSound_after hostsSound_empty writes
  refine ⟨hsound.unique, fun now identity fault hf => ?_, fun now identity fault hf => ?_,
    fun now identity fault hf => ?_⟩
  · obtain ⟨answer, after, hrun, h⟩ := upsertHost_upserted hsound now identity
    rw [hrun] at hf
    exact h.table_fault hf
  · obtain ⟨answer, after, hrun, h⟩ := registerStart_selfWritten hsound now identity
    rw [hrun] at hf
    exact (h.table_fault hf).2
  · obtain ⟨answer, after, hrun, h⟩ := refreshSelf_selfWritten hsound now identity
    rw [hrun] at hf
    cases (h.table_fault hf).1

theorem Database.HostsSound.eq_of_isSelf {db : Database} (h : db.HostsSound) {r s : HostRow}
    (hr : r ∈ db.hosts) (hself : r.isSelf = true) (hs : s ∈ db.hosts) (hself' : s.isSelf = true) :
    s = r := by
  refine (h.distinct.apart hs hr).resolve_right ?_
  intro hap
  rw [hap.self hself'] at hself
  cases hself

theorem Database.not_peers_of_isSelf {db : Database} {r : HostRow} (hr : r ∈ db.hosts)
    (hself : r.isSelf = true) : ¬∀ s ∈ db.hosts, s.isPeer = true := by
  intro h
  rw [HostRow.not_isSelf_of_isPeer (h r hr)] at hself
  cases hself

/-- A start of the local host counts one more, as long as there is room. -/
theorem registerStart_counts {store : Store} (hdb : store.database.HostsSound) {self : HostRow}
    (mem : self ∈ store.database.hosts) (isSelf : self.isSelf = true) {n : Nat}
    (hn : self.restarts = .whole n) (room : n + 1 < Number.limit63) (now : Time.Moment)
    {identity : Identity} (named : Text.trim identity.hostname ≠ "") :
    ∃ self' ∈ (store.apply (.registerStart now identity)).database.hosts,
      self'.isSelf = true ∧ self'.restarts = .whole (n + 1 : Nat) := by
  have hfits : (n : Int) ≠ Cell.highest := by
    unfold Cell.highest
    omega
  have hself := fun s => hdb.eq_of_isSelf (s := s) mem isSelf
  have hpeers := Database.not_peers_of_isSelf mem isSelf
  obtain ⟨answer, after, hrun, h⟩ := registerStart_selfWritten hdb now identity
  rw [Store.apply, hrun]
  cases h with
  | unnamed blank => exact absurd blank named
  | rewritten named mem' isSelf' fits reads =>
    rename_i s record
    rw [hself s mem' isSelf']
    have hrelease : self.release identity self.id = self :=
      HostRow.release_of_not_isOther identity (by simp [HostRow.isOther])
    have hmem := List.mem_map_of_mem (f := HostRow.release identity self.id)
      (hdb.self_mem_freed (Text.trim identity.hostname) mem isSelf)
    rw [hrelease] at hmem
    refine ⟨_, List.mem_map.mpr ⟨self, hmem, if_pos rfl⟩, ?_, ?_⟩
    · rw [HostRow.isSelf, (self.rewrite_fields identity _ true _).2.2.1]
      exact isSelf
    · rw [HostRow.restarts_rewrite, hn, Cell.plus_one room]
  | worn named mem' isSelf' starts last =>
    rename_i s
    rw [hself s mem' isSelf', hn] at last
    cases last
    exact absurd rfl hfits
  | started named peers => exact absurd peers hpeers
  | notStarted named peers => exact absurd peers hpeers
  | full named peers => exact absurd peers hpeers

/-- After `n + 1` starts and nothing else the record tells of `n` restarts. -/
theorem restarts_after_starts (now : Time.Moment) {identity : Identity}
    (named : Text.trim identity.hostname ≠ "") {n : Nat} (room : n < Number.limit63) :
    ∃ self ∈ (({} : Store).after
        (List.replicate (n + 1) (.registerStart now identity))).database.hosts,
      self.isSelf = true ∧ self.restarts = .whole n := by
  induction n with
  | zero =>
    obtain ⟨answer, after, hrun, h⟩ := registerStart_selfWritten hostsSound_empty now identity
    rw [List.replicate_one, after_cons, after_nil, Store.apply, hrun]
    cases h with
    | unnamed blank => exact absurd blank named
    | rewritten named mem => cases mem
    | worn named mem => cases mem
    | started =>
      exact ⟨_, Database.mem_started _ _ _ _, (HostRow.isSelf_iff _).mpr rfl, rfl⟩
    | notStarted named peers rests => cases rests
    | full named peers starts last => cases last
  | succ n ih =>
    obtain ⟨self, mem, isSelf, hn⟩ := ih (by omega)
    rw [List.replicate_succ', after_append, after_cons, after_nil]
    exact registerStart_counts (hostsSound_after hostsSound_empty _) mem isSelf hn room now named

theorem registerStart_of_worn {store : Store} (hdb : store.database.HostsSound) {self : HostRow}
    (mem : self ∈ store.database.hosts) (isSelf : self.isSelf = true)
    (last : self.restarts = .whole Cell.highest) (now : Time.Moment) {identity : Identity}
    (named : Text.trim identity.hostname ≠ "") :
    (store.registerStart now.1 identity).1 = .error (.table (.wrongKind 9 "restarts" "Real")) := by
  have hpeers := Database.not_peers_of_isSelf mem isSelf
  obtain ⟨answer, after, hrun, h⟩ := registerStart_selfWritten hdb now identity
  rw [hrun]
  cases h with
  | unnamed blank => exact absurd blank named
  | rewritten named mem' isSelf' fits =>
    rename_i s record
    rw [hdb.eq_of_isSelf mem isSelf mem' isSelf'] at fits
    exact absurd last (fits rfl)
  | worn => rfl
  | started named peers => exact absurd peers hpeers
  | notStarted named peers => exact absurd peers hpeers
  | full named peers => exact absurd peers hpeers

/-- The start after as many as can be counted fails on the tables. -/
theorem registerStart_worn :
    ((({} : Store).after (List.replicate Number.limit63
      (.registerStart Time.epoch { hostname := "a" }))).registerStart Time.epoch.1
        { hostname := "a" }).1 = .error (.table (.wrongKind 9 "restarts" "Real")) := by
  have named : Text.trim ({ hostname := "a" } : Identity).hostname ≠ "" := by decide
  obtain ⟨n, hn⟩ : ∃ n, Number.limit63 = n + 1 := ⟨9223372036854775807, rfl⟩
  obtain ⟨self, mem, isSelf, hcount⟩ :=
    restarts_after_starts Time.epoch named (show n < Number.limit63 by omega)
  rw [← hn] at mem
  refine registerStart_of_worn (hostsSound_after hostsSound_empty _) mem isSelf ?_
    Time.epoch named
  rw [hcount, Cell.highest, hn]
  congr 1
  omega

end PeerHealth.Store
