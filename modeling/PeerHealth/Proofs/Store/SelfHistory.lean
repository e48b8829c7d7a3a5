import PeerHealth.Proofs.Store.Uniqueness

/-! What a node keeps of itself. Main statement: after every run from an empty store there is one
record of the local host if it has started and none before, and the record is made of what the host
told of itself, whatever else was written. -/

namespace PeerHealth.Store

/-- What the local host told of itself, at a start or at another time. -/
structure Telling where
  time : Time.Moment
  identity : Identity
  started : Bool
deriving DecidableEq

/-- What a write tells of the local host, if the store takes it. -/
def telling? (store : Store) : Write → Option Telling
  | .registerStart now identity =>
    if (store.registerStart now.1 identity).1.isOk then some ⟨now, identity, true⟩ else none
  | .refreshSelf now identity =>
    if (store.refreshSelf now.1 identity).1.isOk then some ⟨now, identity, false⟩ else none
  | _ => none

/-- All that the local host told of itself in writes, the earliest first. -/
def tellings (store : Store) : List Write → List Telling
  | [] => []
  | w :: writes => (store.telling? w).toList ++ (store.apply w).tellings writes

def starts (told : List Telling) : List Telling := told.filter (·.started)

structure Telling.ShownBy (t : Telling) (h : Host) : Prop where
  hostname : h.hostname = Text.trim t.identity.hostname
  internal : h.internalAddress = t.identity.internalAddress
  external : h.publicAddress = t.identity.publicAddress
  servicePort : h.servicePort = t.identity.servicePort
  lastSeen : h.lastSeen = t.time.1

/-- A record made of what the local host told of itself: a restart for each start but the first, the
times of the first and of the last start, and what was told last. -/
structure Recounts (told : List Telling) (record : PeerHealth.SelfRecord) : Prop where
  isLocal : record.host.isLocal = true
  discovered : record.host.discoveredAddress = ""
  restarts : record.restarts = (starts told).length - 1
  firstStart : (starts told).head?.map (·.time.1) = some record.firstStart
  firstSeen : record.host.firstSeen = record.firstStart
  lastStart : (starts told).getLast?.map (·.time.1) = some record.lastStart
  last : ∃ t, told.getLast? = some t ∧ t.ShownBy record.host

/-- What no later write changes in a record. -/
structure SameOrigin (old new : PeerHealth.SelfRecord) : Prop where
  id : new.host.id = old.host.id
  firstSeen : new.host.firstSeen = old.host.firstSeen
  firstStart : new.firstStart = old.firstStart

/-- The rows that are not of peers. -/
def Database.locals (db : Database) : List HostRow := db.hosts.filter fun r => !r.isPeer

section Locals

variable {db after : Database}

theorem Database.mem_locals {r : HostRow} :
    r ∈ db.locals ↔ r ∈ db.hosts ∧ r.isPeer = false := by
  simp [locals]

theorem Database.locals_eq_nil_iff : db.locals = [] ↔ ∀ r ∈ db.hosts, r.isPeer = true := by
  simp [locals, List.filter_eq_nil_iff]

/-- The local host's row is the only one that is not a peer's. -/
theorem Database.HostsSound.locals_eq (hdb : db.HostsSound) {self : HostRow}
    (mem : self ∈ db.hosts) (isSelf : self.isSelf = true) : db.locals = [self] := by
  have hone : ∀ r, r ∈ db.locals ↔ r ∈ [self] := by
    intro r
    rw [mem_locals, List.mem_singleton]
    constructor
    · rintro ⟨hr, hpeer⟩
      refine hdb.eq_of_isSelf mem isSelf hr ?_
      by_contra hself
      rw [(hdb.rows r hr).isPeer_of_not_isSelf hself] at hpeer
      cases hpeer
    · rintro rfl
      exact ⟨mem, HostRow.not_isPeer_of_isSelf isSelf⟩
  have hnodup : db.locals.Nodup :=
    (hdb.distinct.filter _).imp fun hap heq => hap.id (congrArg HostRow.id heq)
  exact List.perm_singleton.mp
    ((List.perm_ext_iff_of_nodup hnodup (List.pairwise_singleton _ self)).mpr hone)

theorem Database.HostsSound.mem_of_locals (hdb : db.HostsSound) {self : HostRow}
    (h : db.locals = [self]) : self ∈ db.hosts ∧ self.isSelf = true := by
  have hmem : self ∈ db.locals := by simp [h]
  obtain ⟨hself, hpeer⟩ := mem_locals.mp hmem
  refine ⟨hself, ?_⟩
  by_contra hnot
  rw [(hdb.rows self hself).isPeer_of_not_isSelf hnot] at hpeer
  cases hpeer

theorem Database.locals_map {f : HostRow → HostRow}
    (hkind : ∀ r ∈ db.hosts, (f r).isLocal = r.isLocal) (hlocal : ∀ r ∈ db.locals, f r = r) :
    ({ db with hosts := db.hosts.map f } : Database).locals = db.locals := by
  have hcongr : db.hosts.filter ((fun r => !r.isPeer) ∘ f) = db.locals :=
    List.filter_congr fun r hr => by simp [HostRow.isPeer, hkind r hr]
  rw [locals, List.filter_map, hcongr]
  exact (List.map_congr_left hlocal).trans (List.map_id' _)

theorem Database.release_of_mem_locals {r : HostRow} (h : r ∈ db.locals) (identity : Identity)
    (keep : Int) : r.release identity keep = r :=
  HostRow.release_of_not_isOther identity (by simp [HostRow.isOther, (mem_locals.mp h).2])

theorem Database.locals_without (hdb : db.HostsSound) {r : HostRow} (mem : r ∈ db.hosts)
    (isPeer : r.isPeer = true) : (db.without r.id).locals = db.locals := by
  rw [locals, locals, without, List.filter_filter]
  refine List.filter_congr fun s hs => ?_
  by_cases hid : s.id = r.id
  · rw [hdb.distinct.eq_of_id hs mem hid, isPeer]
    rfl
  · simp [hid]

theorem Upserted.locals_eq {identity : Identity} {now : String} {answer : Except Fault Host}
    (h : Upserted db identity now answer after) (hdb : db.HostsSound) :
    after.locals = db.locals := by
  cases h with
  | unnamed => rfl
  | own => rfl
  | merged named free mem isPeer found =>
    rename_i r host tells
    rw [Database.merged, List.map_map]
    refine Database.locals_map (fun s hs => ?_) fun s hs => ?_
    · simp only [Function.comp_apply]
      split <;> exact (s.stripped_release identity r.id).isLocal
    · have hne : s.id ≠ r.id := by
        intro hid
        rw [hdb.distinct.eq_of_id (Database.mem_locals.mp hs).1 mem hid] at hs
        rw [(Database.mem_locals.mp hs).2] at isPeer
        cases isPeer
      simp [Database.release_of_mem_locals hs, hne]
  | created =>
    have hmap : ({ db with hosts := db.hosts.map (HostRow.release identity 0) } : Database).locals =
        db.locals :=
      Database.locals_map (fun r _ => (r.stripped_release identity 0).isLocal)
        fun r hr => Database.release_of_mem_locals hr identity 0
    rw [← hmap, Database.locals, Database.locals, Database.created, List.filter_append]
    simp [HostRow.ofPeer, HostRow.isPeer]
  | full => rfl

theorem Deleted.locals_eq {id : Int} {answer : Except Fault Unit} (h : Deleted db id answer after)
    (hdb : db.HostsSound) : after.locals = db.locals := by
  cases h with
  | missing => rfl
  | own => rfl
  | deleted mem isPeer hid => exact hid ▸ Database.locals_without hdb mem isPeer

/-- What the local host tells of itself is refused, changes its row, or makes one. -/
theorem SelfWritten.locals_cases {identity : Identity} {started : Bool} {now : String}
    {answer : Except Fault PeerHealth.SelfRecord}
    (h : SelfWritten db identity started now answer after) (hdb : db.HostsSound)
    (hnow : IsStoredTime now) :
    (answer.isOk = false ∧ after = db) ∨
      (answer.isOk = true ∧ ∃ self, db.locals = [self] ∧
        after.locals = [self.rewrite identity (Text.trim identity.hostname) started now] ∧
        (started = true → self.restarts ≠ .whole Cell.highest)) ∨
      (answer.isOk = true ∧ ∃ id, started = true ∧ db.locals = [] ∧
        after.locals = [HostRow.ofSelf identity (Text.trim identity.hostname) now id]) := by
  have hafter := h.sound hdb hnow
  cases h with
  | unnamed => exact .inl ⟨rfl, rfl⟩
  | rewritten named mem isSelf fits reads =>
    rename_i self record
    have hmem := Database.mem_rewritten identity (Text.trim identity.hostname) started now
      (hdb.self_mem_freed (Text.trim identity.hostname) mem isSelf)
    refine .inr (.inl ⟨rfl, self, hdb.locals_eq mem isSelf, hafter.locals_eq hmem ?_, fits⟩)
    rw [HostRow.isSelf, (self.rewrite_fields identity _ started now).2.2.1]
    exact isSelf
  | worn => exact .inl ⟨rfl, rfl⟩
  | started named peers starts =>
    refine .inr (.inr ⟨rfl, db.lastHost + 1, starts, Database.locals_eq_nil_iff.mpr peers,
      hafter.locals_eq ?_ ((HostRow.isSelf_iff _).mpr rfl)⟩)
    rw [← Database.lastHost_freed db (Text.trim identity.hostname)]
    exact Database.mem_started _ _ _ _
  | notStarted => exact .inl ⟨rfl, rfl⟩
  | full => exact .inl ⟨rfl, rfl⟩

end Locals

section Records

/-- The record that a first start makes. -/
def Telling.record (t : Telling) (id : Int) : PeerHealth.SelfRecord :=
  { host :=
      { id, hostname := Text.trim t.identity.hostname
        internalAddress := t.identity.internalAddress
        publicAddress := t.identity.publicAddress
        discoveredAddress := "", servicePort := t.identity.servicePort
        firstSeen := t.time.1, lastSeen := t.time.1, isLocal := true }
    restarts := 0, firstStart := t.time.1, lastStart := t.time.1 }

/-- The record with what is told then. -/
def Telling.onto (t : Telling) (record : PeerHealth.SelfRecord) : PeerHealth.SelfRecord :=
  { record with
    host :=
      { record.host with
        hostname := Text.trim t.identity.hostname
        internalAddress := t.identity.internalAddress
        publicAddress := t.identity.publicAddress
        servicePort := t.identity.servicePort
        lastSeen := t.time.1 }
    restarts := if t.started then record.restarts + 1 else record.restarts
    lastStart := if t.started then t.time.1 else record.lastStart }

theorem Telling.onto_keeps (t : Telling) (record : PeerHealth.SelfRecord) :
    (t.onto record).host.isLocal = record.host.isLocal ∧
      (t.onto record).host.discoveredAddress = record.host.discoveredAddress ∧
      SameOrigin record (t.onto record) := by
  unfold Telling.onto
  exact ⟨rfl, rfl, rfl, rfl, rfl⟩

theorem readSelf_ofSelf (t : Telling) (id : Int) :
    (HostRow.ofSelf t.identity (Text.trim t.identity.hostname) (Time.storedText t.time.1)
      id).readSelf = .ok (t.record id) := by
  have htime := Time.parseTime?_storedText t.time.2
  exact HostRow.readSelf_eq_ok_iff.mpr
    ⟨⟨rfl, rfl, rfl, rfl, rfl, rfl, htime, htime, 1, rfl, rfl⟩, rfl, ⟨_, rfl, htime⟩, _, rfl, htime⟩

theorem readSelf_rewrite (t : Telling) {self : HostRow} {record : PeerHealth.SelfRecord}
    (reads : self.readSelf = .ok record)
    (counts : t.started = true → self.restarts.plus 1 = .whole (record.restarts + 1)) :
    (self.rewrite t.identity (Text.trim t.identity.hostname) t.started
      (Time.storedText t.time.1)).readSelf = .ok (t.onto record) := by
  have htime := Time.parseTime?_storedText t.time.2
  obtain ⟨htells, hrestarts, hfirst, hlast⟩ := HostRow.readSelf_eq_ok_iff.mp reads
  refine HostRow.readSelf_eq_ok_iff.mpr ?_
  unfold HostRow.rewrite Telling.onto
  generalize Text.trim t.identity.hostname = hostname
  cases hstarted : t.started with
  | false =>
    simp only [Bool.false_eq_true, if_false]
    exact ⟨⟨htells.id, rfl, rfl, rfl, htells.discovered, rfl, htells.firstSeen, htime,
      htells.isLocal⟩, hrestarts, hfirst, hlast⟩
  | true =>
    simp only [if_true]
    exact ⟨⟨htells.id, rfl, rfl, rfl, htells.discovered, rfl, htells.firstSeen, htime,
      htells.isLocal⟩, counts hstarted, hfirst, _, rfl, htime⟩

theorem recounts_first {t : Telling} (h : t.started = true) (id : Int) :
    Recounts [t] (t.record id) := by
  have hstarts : starts [t] = [t] := by simp [starts, h]
  constructor
  · rfl
  · rfl
  · rw [hstarts]
    rfl
  · rw [hstarts]
    rfl
  · rfl
  · rw [hstarts]
    rfl
  · exact ⟨t, rfl, rfl, rfl, rfl, rfl, rfl⟩

theorem Recounts.onto {told : List Telling} {record : PeerHealth.SelfRecord}
    (h : Recounts told record) (t : Telling) : Recounts (told ++ [t]) (t.onto record) := by
  obtain ⟨hlocal, hdiscovered, -, hseen, hfirst⟩ := t.onto_keeps record
  have hshown : ∃ u, (told ++ [t]).getLast? = some u ∧ u.ShownBy (t.onto record).host :=
    ⟨t, List.getLast?_concat, ⟨rfl, rfl, rfl, rfl, rfl⟩⟩
  have hstarts : starts (told ++ [t]) = if t.started then starts told ++ [t] else starts told := by
    cases hstarted : t.started <;> simp [starts, hstarted]
  have hne : starts told ≠ [] := by
    intro hnil
    have hnone := h.firstStart
    rw [hnil] at hnone
    cases hnone
  refine ⟨hlocal.trans h.isLocal, hdiscovered.trans h.discovered, ?_, ?_,
    hseen.trans (h.firstSeen.trans hfirst.symm), ?_, hshown⟩
  · rw [hstarts, Telling.onto]
    split <;> simp [h.restarts]
  · rw [hstarts, hfirst, ← h.firstStart]
    split
    · rw [List.head?_append_of_ne_nil _ hne]
    · rfl
  · rw [hstarts, Telling.onto]
    split
    · rw [List.getLast?_concat]
      rfl
    · exact h.lastStart

theorem SameOrigin.trans {old mid new : PeerHealth.SelfRecord} (h : SameOrigin old mid)
    (h' : SameOrigin mid new) : SameOrigin old new :=
  ⟨h'.id.trans h.id, h'.firstSeen.trans h.firstSeen, h'.firstStart.trans h.firstStart⟩

end Records

/-- What the tables keep of the local host after all that it told of itself. -/
inductive Recounted (db : Database) : List Telling → Option PeerHealth.SelfRecord → Prop
  | silent (empty : db.locals = []) : Recounted db [] none
  | told {self : HostRow} {told : List Telling} {record : PeerHealth.SelfRecord}
      (own : db.locals = [self]) (reads : self.readSelf = .ok record)
      (recounts : Recounts told record) : Recounted db told (some record)

section Runs

variable {store : Store} {told : List Telling} {record? : Option PeerHealth.SelfRecord}

/-- A telling is refused and changes nothing, or it is recounted. -/
theorem Recounted.telling {db after : Database} (h : Recounted db told record?)
    (hdb : db.HostsSound) {t : Telling} {answer : Except Fault PeerHealth.SelfRecord}
    (hwritten : SelfWritten db t.identity t.started (Time.storedText t.time.1) answer after) :
    (answer.isOk = false ∧ after = db) ∨
      answer.isOk = true ∧ ∃ record, Recounted after (told ++ [t]) (some record) ∧
        ∀ old, record? = some old → SameOrigin old record := by
  rcases hwritten.locals_cases hdb (isStoredTime_storedText t.time) with hrefused |
    ⟨hok, self, hself, hafter, hfits⟩ | ⟨hok, id, hstarted, hnone, hafter⟩
  · exact .inl hrefused
  · cases h with
    | silent empty =>
      rw [hself] at empty
      cases empty
    | told own reads recounts =>
      rename_i self' old
      rw [hself] at own
      cases own
      -- A counter at its limit refuses a start, so one that is taken counts one up.
      have hcounts : t.started = true → self.restarts.plus 1 = .whole (old.restarts + 1) := by
        intro hstarted
        obtain ⟨mem, isSelf⟩ := hdb.mem_of_locals hself
        obtain ⟨n, -, hn, hplus⟩ := ((hdb.rows self mem).started isSelf).plus_one (hfits hstarted)
        have hold := (HostRow.readSelf_eq_ok_iff.mp reads).2.1
        rw [hplus, ← Cell.whole.inj (hn.symm.trans hold)]
        rfl
      refine .inr ⟨hok, t.onto old, .told hafter (readSelf_rewrite t reads hcounts)
        (recounts.onto t), ?_⟩
      rintro _ ⟨⟩
      exact (t.onto_keeps old).2.2
  · cases h with
    | silent empty =>
      refine .inr ⟨hok, t.record id, .told hafter (readSelf_ofSelf t id)
        (recounts_first hstarted id), ?_⟩
      rintro _ ⟨⟩
    | told own =>
      rw [hnone] at own
      cases own

theorem Recounted.congr {db after : Database} (h : Recounted db told record?)
    (hlocals : after.locals = db.locals) : Recounted after told record? := by
  cases h with
  | silent empty => exact .silent (hlocals.trans empty)
  | told own reads recounts => exact .told (hlocals.trans own) reads recounts

/-- A write tells nothing of the local host and leaves its row as it is, or it is recounted. -/
theorem Recounted.apply (h : Recounted store.database told record?)
    (hdb : store.database.HostsSound) (w : Write) :
    (store.telling? w = none ∧ (store.apply w).database.locals = store.database.locals) ∨
      ∃ t record, store.telling? w = some t ∧
        Recounted (store.apply w).database (told ++ [t]) (some record) ∧
        ∀ old, record? = some old → SameOrigin old record := by
  cases w with
  | upsertHost now identity =>
    obtain ⟨answer, after, hrun, hdone⟩ := upsertHost_upserted hdb now identity
    rw [Store.apply, hrun]
    exact .inl ⟨rfl, hdone.locals_eq hdb⟩
  | deleteHost id =>
    obtain ⟨answer, after, hrun, hdone⟩ := deleteHost_deleted hdb id
    rw [Store.apply, hrun]
    exact .inl ⟨rfl, hdone.locals_eq hdb⟩
  | registerStart now identity =>
    obtain ⟨answer, after, hrun, hdone⟩ := registerStart_selfWritten hdb now identity
    rw [telling?, Store.apply, hrun]
    rcases h.telling (t := ⟨now, identity, true⟩) hdb hdone with ⟨hno, rfl⟩ | ⟨hok, record, hnew⟩
    · exact .inl ⟨if_neg (by simp [hno]), rfl⟩
    · exact .inr ⟨_, record, if_pos hok, hnew⟩
  | refreshSelf now identity =>
    obtain ⟨answer, after, hrun, hdone⟩ := refreshSelf_selfWritten hdb now identity
    rw [telling?, Store.apply, hrun]
    rcases h.telling (t := ⟨now, identity, false⟩) hdb hdone with ⟨hno, rfl⟩ | ⟨hok, record, hnew⟩
    · exact .inl ⟨if_neg (by simp [hno]), rfl⟩
    · exact .inr ⟨_, record, if_pos hok, hnew⟩
  | recordCheck now host result =>
    exact .inl ⟨rfl, congrArg (List.filter _) (store.recordCheck_hosts now.1 host result).1⟩
  | addLogs entries =>
    have hhosts := congrArg Database.hosts (store.addLogs_unlogged entries)
    exact .inl ⟨rfl, congrArg (List.filter _) hhosts⟩
  | reopen limit => exact .inl ⟨rfl, rfl⟩

/-- What is kept after writes recounts all that was told, and a record that is there stays the same
one. -/
theorem Recounted.after (h : Recounted store.database told record?)
    (hdb : store.database.HostsSound) (writes : List Write) :
    ∃ new?, Recounted (store.after writes).database (told ++ store.tellings writes) new? ∧
      ∀ old, record? = some old → ∃ new, new? = some new ∧ SameOrigin old new := by
  -- What was told before grows with each write that is taken, so the record is followed from there.
  induction writes generalizing store told record? with
  | nil =>
    refine ⟨record?, ?_, fun old hold => ⟨old, hold, rfl, rfl, rfl⟩⟩
    rw [tellings, List.append_nil]
    exact h
  | cons w writes ih =>
    have hdb' := hostsSound_apply hdb w
    rcases h.apply hdb w with ⟨hnone, hlocals⟩ | ⟨t, record, ht, hnew, hsame⟩
    · obtain ⟨new?, hnew, hkept⟩ := ih (h.congr hlocals) hdb'
      refine ⟨new?, ?_, hkept⟩
      rw [tellings, hnone]
      exact hnew
    · obtain ⟨new?, hlater, hkept⟩ := ih hnew hdb'
      refine ⟨new?, ?_, fun old hold => ?_⟩
      · rw [tellings, ht, Option.toList_some, ← List.append_assoc]
        exact hlater
      · obtain ⟨new, hsome, hsame'⟩ := hkept record rfl
        exact ⟨new, hsome, (hsame old hold).trans hsame'⟩

theorem selfRecord_of_locals (hdb : store.database.HostsSound) {self : HostRow}
    {record : PeerHealth.SelfRecord} (own : store.database.locals = [self])
    (reads : self.readSelf = .ok record) : store.selfRecord = .ok record := by
  obtain ⟨mem, isSelf⟩ := hdb.mem_of_locals own
  rw [selfRecord, Database.selfRecord_eq hdb.distinct mem isSelf, reads]
  rfl

theorem selfRecord_of_peers (peers : ∀ r ∈ store.database.hosts, r.isPeer = true) :
    store.selfRecord = .error .notFound := by
  have hnone : store.database.hosts.find? HostRow.isSelf = none :=
    List.find?_eq_none.mpr fun r hr => by simp [HostRow.not_isSelf_of_isPeer (peers r hr)]
  rw [selfRecord, Database.selfRecord, hnone]

theorem refreshSelf_of_peers (hdb : store.database.HostsSound)
    (peers : ∀ r ∈ store.database.hosts, r.isPeer = true) (now : Time.Moment) {identity : Identity}
    (named : Text.trim identity.hostname ≠ "") :
    store.refreshSelf now.1 identity = (.error .notFound, store) := by
  obtain ⟨answer, after, hrun, h⟩ := refreshSelf_selfWritten hdb now identity
  rw [hrun]
  cases h with
  | unnamed blank => exact absurd blank named
  | rewritten named mem isSelf => exact absurd peers (Database.not_peers_of_isSelf mem isSelf)
  | worn named mem isSelf => exact absurd peers (Database.not_peers_of_isSelf mem isSelf)
  | started named peers starts => cases starts
  | notStarted => rfl
  | full named peers starts => cases starts

end Runs

/-- After every run from an empty store: as long as no start was taken there is no local host, and
from then on there is one, with a record made of all that was told, which no later write makes
another one. What tells nothing of the local host leaves its row as it is. -/
theorem self_record_recounts (writes : List Write) :
    (starts (({} : Store).tellings writes) = [] →
      (∀ r ∈ (({} : Store).after writes).database.hosts, r.isPeer = true) ∧
        (({} : Store).after writes).selfRecord = .error .notFound ∧
        ∀ (now : Time.Moment) (identity : Identity), Text.trim identity.hostname ≠ "" →
          (({} : Store).after writes).refreshSelf now.1 identity =
            (.error .notFound, ({} : Store).after writes)) ∧
      (starts (({} : Store).tellings writes) ≠ [] →
        ∃ self record, (({} : Store).after writes).database.locals = [self] ∧
          self.readSelf = .ok record ∧ (({} : Store).after writes).selfRecord = .ok record ∧
          Recounts (({} : Store).tellings writes) record ∧
          ∀ later, ∃ record', ((({} : Store).after writes).after later).selfRecord = .ok record' ∧
            SameOrigin record record') ∧
      ∀ w, (({} : Store).after writes).telling? w = none →
        ((({} : Store).after writes).apply w).database.locals =
          (({} : Store).after writes).database.locals := by
  have hsound := hostsSound_after hostsSound_empty writes
  have hempty : Recounted ({} : Store).database [] none := .silent rfl
  obtain ⟨record?, hkept, -⟩ := hempty.after hostsSound_empty writes
  rw [List.nil_append] at hkept
  generalize ({} : Store).tellings writes = told at hkept ⊢
  generalize ({} : Store).after writes = store at hkept hsound ⊢
  refine ⟨fun hnone => ?_, fun hsome => ?_, fun w hw => ?_⟩
  · cases hkept with
    | silent empty =>
      have hpeers := Database.locals_eq_nil_iff.mp empty
      exact ⟨hpeers, selfRecord_of_peers hpeers, fun now identity named =>
        refreshSelf_of_peers hsound hpeers now named⟩
    | told own reads recounts =>
      have hfirst := recounts.firstStart
      rw [hnone] at hfirst
      cases hfirst
  · cases hkept with
    | silent empty => exact absurd rfl hsome
    | told own reads recounts =>
      rename_i self record
      refine ⟨self, record, own, reads, selfRecord_of_locals hsound own reads, recounts,
        fun later => ?_⟩
      obtain ⟨new?, hlater, hsame⟩ := (Recounted.told own reads recounts).after hsound later
      obtain ⟨new, rfl, horigin⟩ := hsame record rfl
      generalize told ++ store.tellings later = told' at hlater
      cases hlater with
      | told own' reads' =>
        exact ⟨new, selfRecord_of_locals (hostsSound_after hsound later) own' reads', horigin⟩
  · rcases hkept.apply hsound w with ⟨-, hlocals⟩ | ⟨t, record, ht, -⟩
    · exact hlocals
    · rw [hw] at ht
      cases ht

/-- A host that starts, is told of as a peer, is not deleted, and tells of itself again. -/
def restarting : List Write :=
  [.upsertHost Time.epoch { hostname := "b", internalAddress := "10.0.0.1" },
    .refreshSelf Time.epoch { hostname := "a" },
    .registerStart Time.epoch { hostname := " a ", internalAddress := "10.0.0.1" },
    .upsertHost Time.epoch { hostname := "a" },
    .deleteHost 2,
    .registerStart Time.epoch { hostname := "a", publicAddress := "1.2.3.4", servicePort := 80 },
    .refreshSelf Time.epoch { hostname := "b" }]

theorem self_record_recounts_restart :
    ({} : Store).tellings restarting =
        [⟨Time.epoch, { hostname := " a ", internalAddress := "10.0.0.1" }, true⟩,
          ⟨Time.epoch, { hostname := "a", publicAddress := "1.2.3.4", servicePort := 80 }, true⟩,
          ⟨Time.epoch, { hostname := "b" }, false⟩] ∧
      ∃ self record, (({} : Store).after restarting).database.locals = [self] ∧
        (({} : Store).after restarting).selfRecord = .ok record ∧ record.restarts = 1 ∧
        record.host.hostname = "b" ∧ record.host.internalAddress = "" := by
  have htold : ({} : Store).tellings restarting =
      [⟨Time.epoch, { hostname := " a ", internalAddress := "10.0.0.1" }, true⟩,
        ⟨Time.epoch, { hostname := "a", publicAddress := "1.2.3.4", servicePort := 80 }, true⟩,
        ⟨Time.epoch, { hostname := "b" }, false⟩] := by
    decide +kernel
  have hstarts : starts (({} : Store).tellings restarting) ≠ [] := by
    rw [htold]
    decide
  obtain ⟨self, record, own, -, hrecord, recounts, -⟩ :=
    (self_record_recounts restarting).2.1 hstarts
  rw [htold] at recounts
  obtain ⟨t, ht, hshown⟩ := recounts.last
  cases ht
  exact ⟨htold, self, record, own, hrecord, recounts.restarts,
    hshown.hostname.trans (by decide), hshown.internal⟩

end PeerHealth.Store
