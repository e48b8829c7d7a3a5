import PeerHealth.Proofs.Store.Sound

/-! Recording what the local host says of itself. Main statements: all that this can come to on a
sound table, and that the table stays sound. -/

namespace PeerHealth.Store

/-- A row with what the local host says of itself, and with one more start if it starts. -/
def HostRow.rewrite (r : HostRow) (identity : Identity) (hostname : String) (started : Bool)
    (now : String) : HostRow :=
  if started then (r.describe identity hostname now).restart now
  else r.describe identity hostname now

namespace Database

/-- The tables without the peer of a name. -/
def freed (db : Database) (hostname : String) : Database :=
  match db.peerId? HostRow.hostname hostname with
  | some stale => db.without stale
  | none => db

/-- The tables with the local host's row rewritten. -/
def rewritten (db : Database) (identity : Identity) (hostname : String) (started : Bool)
    (now : String) (id : Int) : Database :=
  { db with
    hosts := (db.hosts.map (HostRow.release identity id)).map fun r =>
      if r.id = id then r.rewrite identity hostname started now else r }

/-- The tables with a row for the local host. -/
def started (db : Database) (identity : Identity) (hostname now : String) : Database :=
  { db with
    hosts := db.hosts.map (HostRow.release identity 0) ++
      [HostRow.ofSelf identity hostname now (db.lastHost + 1)]
    lastHost := db.lastHost + 1 }

end Database

/-- All that recording what the local host says of itself can come to. -/
inductive SelfWritten (db : Database) (identity : Identity) (started : Bool) (now : String) :
    Except Fault PeerHealth.SelfRecord → Database → Prop
  | unnamed (blank : Text.trim identity.hostname = "") :
      SelfWritten db identity started now (.error (.invalid "empty hostname")) db
  | rewritten {self : HostRow} {record : PeerHealth.SelfRecord}
      (named : Text.trim identity.hostname ≠ "") (mem : self ∈ db.hosts)
      (isSelf : self.isSelf = true)
      (fits : started = true → self.restarts ≠ .whole Cell.highest)
      (reads : (self.rewrite identity (Text.trim identity.hostname) started now).readSelf =
        .ok record) :
      SelfWritten db identity started now (.ok record)
        ((db.freed (Text.trim identity.hostname)).rewritten identity
          (Text.trim identity.hostname) started now self.id)
  | worn {self : HostRow} (named : Text.trim identity.hostname ≠ "") (mem : self ∈ db.hosts)
      (isSelf : self.isSelf = true) (starts : started = true)
      (last : self.restarts = .whole Cell.highest) :
      SelfWritten db identity started now (.error (.table (.wrongKind 9 "restarts" "Real"))) db
  | started {record : PeerHealth.SelfRecord} (named : Text.trim identity.hostname ≠ "")
      (peers : ∀ r ∈ db.hosts, r.isPeer = true) (starts : started = true)
      (room : db.lastHost < Cell.highest)
      (reads : (HostRow.ofSelf identity (Text.trim identity.hostname) now
        (db.lastHost + 1)).readSelf = .ok record) :
      SelfWritten db identity started now (.ok record)
        ((db.freed (Text.trim identity.hostname)).started identity
          (Text.trim identity.hostname) now)
  | notStarted (named : Text.trim identity.hostname ≠ "")
      (peers : ∀ r ∈ db.hosts, r.isPeer = true) (rests : started = false) :
      SelfWritten db identity started now (.error .notFound) db
  | full (named : Text.trim identity.hostname ≠ "")
      (peers : ∀ r ∈ db.hosts, r.isPeer = true) (starts : started = true)
      (last : db.lastHost = Cell.highest) :
      SelfWritten db identity started now (.error Statements.full) db

section Freed

variable {db : Database} {hostname : String}

theorem Database.freed_eq (db : Database) (hostname : String) :
    db.freed hostname = db ∨ ∃ r ∈ db.hosts, r.isPeer = true ∧ r.hostname = hostname ∧
      db.freed hostname = db.without r.id := by
  cases hp : db.peerId? HostRow.hostname hostname with
  | none => exact .inl (by rw [freed, hp])
  | some stale =>
    obtain ⟨r, ⟨hr, hpeer, hname, -⟩, rfl⟩ := exists_peerWith hp
    exact .inr ⟨r, hr, hpeer, hname, by rw [freed, hp]⟩

theorem Database.HostsSound.freed (h : db.HostsSound) (hostname : String) :
    (db.freed hostname).HostsSound := by
  rcases db.freed_eq hostname with heq | ⟨r, -, -, -, heq⟩
  · rw [heq]
    exact h
  · rw [heq]
    exact h.without r.id

theorem Distinct.freed {db : Database} (h : Distinct db.hosts) (hostname : String) :
    Distinct (db.freed hostname).hosts := by
  rcases db.freed_eq hostname with heq | ⟨r, -, -, -, heq⟩
  · rw [heq]
    exact h
  · rw [heq]
    exact h.filter _

theorem Database.lastHost_freed (db : Database) (hostname : String) :
    (db.freed hostname).lastHost = db.lastHost := by
  rcases db.freed_eq hostname with heq | ⟨r, -, -, -, heq⟩ <;> rw [heq]
  rfl

theorem Database.mem_of_mem_freed {r : HostRow} (h : r ∈ (db.freed hostname).hosts) :
    r ∈ db.hosts := by
  rcases db.freed_eq hostname with heq | ⟨s, -, -, -, heq⟩ <;> rw [heq] at h
  · exact h
  · exact (mem_without.mp h).1

/-- The local host stays. -/
theorem Database.HostsSound.self_mem_freed (hdb : db.HostsSound) (hostname : String) {r : HostRow}
    (h : r ∈ db.hosts) (hs : r.isSelf = true) : r ∈ (db.freed hostname).hosts := by
  rcases db.freed_eq hostname with heq | ⟨s, hmem, hp, -, heq⟩ <;> rw [heq]
  · exact h
  · refine mem_without.mpr ⟨h, fun hid => ?_⟩
    rw [hdb.distinct.eq_of_id h hmem hid, HostRow.not_isSelf_of_isPeer hp] at hs
    cases hs

/-- No peer is left with the name. -/
theorem Database.HostsSound.hostname_ne_of_mem_freed (hdb : db.HostsSound) (hne : hostname ≠ "")
    {r : HostRow} (h : r ∈ (db.freed hostname).hosts) (hp : r.isPeer = true) :
    r.hostname ≠ hostname := by
  cases hid : db.peerId? HostRow.hostname hostname with
  | none =>
    rw [Database.freed, hid] at h
    exact fun hname => Database.peerId?_eq_none_iff.mp hid r ⟨h, hp, hname, hne⟩
  | some stale =>
    obtain ⟨s, ⟨hs, -, hname, -⟩, rfl⟩ := Database.exists_peerWith hid
    rw [Database.freed, hid] at h
    obtain ⟨hr, hne'⟩ := mem_without.mp h
    rcases hdb.distinct.apart hs hr with rfl | hap
    · exact absurd rfl hne'
    · have hne'' := hap.hostname (by rw [hname]; exact hne)
      exact fun heq => hne'' (hname.trans heq.symm)

end Freed

section Rewrite

variable {db : Database} {identity : Identity} {hostname now : String} {started : Bool}

theorem Cell.highest_plus_one : ∃ x, (Cell.whole highest).plus 1 = .real x := ⟨_, rfl⟩

theorem HostRow.Sound.describe {r : HostRow} (h : r.Sound) (identity : Identity)
    (hne : hostname ≠ "") (htrim : Text.trim hostname = hostname) (hnow : IsStoredTime now) :
    (r.describe identity hostname now).Sound :=
  ⟨hne, htrim, ⟨identity.servicePort, rfl⟩, h.firstSeen, hnow, h.kind,
    fun hs => ⟨(h.started hs).restarts, (h.started hs).firstStart, (h.started hs).lastStart⟩⟩

/-- One more start is counted, unless there are as many as can be. -/
theorem HostRow.Started.plus_one {r : HostRow} (h : r.Started)
    (fits : r.restarts ≠ .whole Cell.highest) :
    ∃ n : Nat, n + 1 < Number.limit63 ∧ r.restarts = .whole n ∧
      r.restarts.plus 1 = .whole (n + 1 : Nat) := by
  obtain ⟨n, hn, hr⟩ := h.restarts
  have hroom : n + 1 < Number.limit63 := by
    have : (n : Int) ≠ Cell.highest := fun heq => fits (by rw [hr, heq])
    unfold Cell.highest at this
    omega
  exact ⟨n, hroom, hr, by rw [hr, Cell.plus_one hroom]⟩

theorem HostRow.Sound.restart {r : HostRow} (h : r.Sound) (hs : r.isSelf = true)
    (hnow : IsStoredTime now) (fits : r.restarts ≠ .whole Cell.highest) :
    (r.restart now).Sound := by
  have hstarted := h.started hs
  obtain ⟨n, hroom, -, hplus⟩ := hstarted.plus_one fits
  refine ⟨h.named, h.trimmed, h.servicePort, h.firstSeen, h.lastSeen, h.kind, fun _ => ?_⟩
  exact ⟨⟨n + 1, hroom, hplus⟩, hstarted.firstStart, now, rfl, hnow⟩

theorem HostRow.Sound.rewrite {r : HostRow} (h : r.Sound) (hs : r.isSelf = true)
    (identity : Identity) (hne : hostname ≠ "") (htrim : Text.trim hostname = hostname)
    (hnow : IsStoredTime now) (fits : started = true → r.restarts ≠ .whole Cell.highest) :
    (r.rewrite identity hostname started now).Sound := by
  have hd := h.describe identity hne htrim hnow
  unfold HostRow.rewrite
  split
  · rename_i hstarted
    exact hd.restart hs hnow (fits hstarted)
  · exact hd

/-- What rewriting a row leaves and what it puts there. -/
theorem HostRow.rewrite_fields (r : HostRow) (identity : Identity) (hostname : String)
    (started : Bool) (now : String) :
    (r.rewrite identity hostname started now).id = r.id ∧
      (r.rewrite identity hostname started now).hostname = hostname ∧
      (r.rewrite identity hostname started now).isLocal = r.isLocal ∧
      (r.rewrite identity hostname started now).internalAddress = identity.internalAddress ∧
      (r.rewrite identity hostname started now).publicAddress = identity.publicAddress := by
  unfold HostRow.rewrite
  split <;> exact ⟨rfl, rfl, rfl, rfl, rfl⟩

theorem HostRow.restarts_rewrite (r : HostRow) (identity : Identity) (hostname now : String) :
    (r.rewrite identity hostname true now).restarts = r.restarts.plus 1 := by
  rw [HostRow.rewrite, if_pos rfl]
  rfl

theorem Database.HostsSound.distinct_rewritten (hdb : db.HostsSound) (identity : Identity)
    (started : Bool) (now : String) {r : HostRow} (mem : r ∈ db.hosts) (hs : r.isSelf = true)
    (free : ∀ s ∈ db.hosts, s.isPeer = true → s.hostname ≠ hostname) :
    Distinct (db.rewritten identity hostname started now r.id).hosts := by
  refine (hdb.distinct.strip (HostRow.stripped_release identity r.id)).update ?_
  intro r' hr' hid s' hs' hsid
  obtain ⟨r0, hr0, rfl⟩ := List.mem_map.mp hr'
  obtain ⟨s, hmem, rfl⟩ := List.mem_map.mp hs'
  rw [(HostRow.stripped_release identity r.id r0).id] at hid
  rw [(HostRow.stripped_release identity r.id s).id] at hsid
  have hap : r.Apart s :=
    (hdb.distinct.apart mem hmem).resolve_left fun heq => hsid (by rw [heq])
  have hpeer : s.isPeer = true :=
    (hdb.rows s hmem).isPeer_of_not_isSelf fun hself => by
      rw [hap.self hs] at hself
      cases hself
  obtain ⟨hid', hname, -, hin, hout⟩ := (HostRow.release identity r.id r0).rewrite_fields
    identity hostname started now
  rw [(HostRow.stripped_release identity r.id r0).id] at hid'
  refine HostRow.apart_release ?_ ?_ ?_ (.inl hin) (.inl hout) (.inl ?_)
  · rw [hid', hid]
    exact Ne.symm hsid
  · rw [hname]
    exact fun heq => free s hmem hpeer heq.symm
  · exact fun _ => HostRow.not_isSelf_of_isPeer hpeer
  · simp only [HostRow.isOther, Bool.and_eq_true, decide_eq_true_eq]
    exact ⟨hsid, hpeer⟩

theorem Database.HostsSound.distinct_started (hdb : db.HostsSound) (identity : Identity)
    (now : String)
    (peers : ∀ s ∈ db.hosts, s.isPeer = true)
    (free : ∀ s ∈ db.hosts, s.isPeer = true → s.hostname ≠ hostname) :
    Distinct (db.started identity hostname now).hosts := by
  refine (hdb.distinct.strip (HostRow.stripped_release identity 0)).append ?_
  intro s' hs'
  obtain ⟨s, hs, rfl⟩ := List.mem_map.mp hs'
  have hnum := hdb.numbered s hs
  refine HostRow.apart_release ?_ ?_ ?_ (.inl rfl) (.inl rfl) (.inl ?_)
  · show db.lastHost + 1 ≠ s.id
    omega
  · exact fun heq => free s hs (peers s hs) heq.symm
  · exact fun _ => HostRow.not_isSelf_of_isPeer (peers s hs)
  · simp only [HostRow.isOther, Bool.and_eq_true, decide_eq_true_eq]
    exact ⟨by omega, peers s hs⟩

theorem Database.mem_started (db : Database) (identity : Identity) (hostname now : String) :
    HostRow.ofSelf identity hostname now (db.lastHost + 1) ∈
      (db.started identity hostname now).hosts :=
  List.mem_append_right _ (List.mem_singleton_self _)

theorem HostRow.sound_ofSelf (identity : Identity) (hne : hostname ≠ "")
    (htrim : Text.trim hostname = hostname) (hnow : IsStoredTime now) (id : Int) :
    (HostRow.ofSelf identity hostname now id).Sound :=
  ⟨hne, htrim, ⟨identity.servicePort, rfl⟩, hnow, hnow, .inr rfl,
    fun _ => ⟨⟨0, by decide, rfl⟩, ⟨now, rfl, hnow⟩, ⟨now, rfl, hnow⟩⟩⟩

/-- A row with more starts than can be counted does not read. -/
theorem HostRow.Sound.readSelf_worn {r : HostRow} (h : r.Sound) (hne : hostname ≠ "")
    (htrim : Text.trim hostname = hostname) (hnow : IsStoredTime now)
    (last : r.restarts = .whole Cell.highest) :
    (r.rewrite identity hostname true now).readSelf =
      .error (.wrongKind 9 "restarts" "Real") := by
  obtain ⟨host, hhost⟩ := (h.describe identity hne htrim hnow).read
  have hread : (r.rewrite identity hostname true now).read = .ok host :=
    HostRow.read_eq_ok_iff.mpr ⟨hhost.id, hhost.hostname, hhost.internal, hhost.external,
      hhost.discovered, hhost.servicePort, hhost.firstSeen, hhost.lastSeen, hhost.isLocal⟩
  obtain ⟨x, hx⟩ := Cell.highest_plus_one
  have hrestarts : (r.rewrite identity hostname true now).restarts = .real x := by
    rw [HostRow.restarts_rewrite, last, hx]
  rw [HostRow.readSelf, hread, hrestarts]
  rfl

/-- What is left to do once no peer has the local host's name. -/
def Statements.writeOwn (identity : Identity) (hostname : String) (started : Bool) (now : String) :
    Statements PeerHealth.SelfRecord := do
  match ← ask Database.localHost? with
  | some self =>
    releaseAddresses identity self.id
    updateHosts (·.id = self.id) fun r => r.rewrite identity hostname started now
  | none =>
    releaseAddresses identity 0
    if started then
      let _ ← insertHost (HostRow.ofSelf identity hostname now)
    else throw .notFound
  ask Database.selfRecord

theorem Statements.exec_writeSelf (db : Database) (started : Bool) (now : String)
    (hne : Text.trim identity.hostname ≠ "") :
    exec (writeSelf identity started now) db =
      exec (writeOwn identity (Text.trim identity.hostname) started now)
        (db.freed (Text.trim identity.hostname)) := by
  refine (exec_bind_of_ok (exec_hostnameOf hne db)).trans ((exec_bind_of_ok (exec_get db)).trans ?_)
  cases hp : db.peerId? HostRow.hostname (Text.trim identity.hostname) with
  | none =>
    rw [Database.freed, hp]
    rfl
  | some stale =>
    rw [Database.freed, hp]
    exact exec_bind_of_ok (exec_deleteHost stale db)

theorem Database.mem_rewritten (identity : Identity) (hostname : String) (started : Bool)
    (now : String) {r : HostRow} (mem : r ∈ db.hosts) :
    r.rewrite identity hostname started now ∈
      (db.rewritten identity hostname started now r.id).hosts := by
  refine List.mem_map.mpr ⟨r, List.mem_map.mpr ⟨r, mem, ?_⟩, if_pos rfl⟩
  exact HostRow.release_of_not_isOther identity (by simp [HostRow.isOther])

/-- The local host's row is rewritten, and then read. -/
theorem Statements.exec_writeOwn_of_self (hdb : db.HostsSound) (identity : Identity)
    (started : Bool) (now : String) {r : HostRow} (mem : r ∈ db.hosts)
    (hs : r.isSelf = true)
    (free : ∀ s ∈ db.hosts, s.isPeer = true → s.hostname ≠ hostname) :
    exec (writeOwn identity hostname started now) db =
      (ofTable (r.rewrite identity hostname started now).readSelf,
        db.rewritten identity hostname started now r.id) := by
  have hdist := hdb.distinct_rewritten identity started now mem hs free
  have hmem := db.mem_rewritten identity hostname started now mem
  have hisSelf : (r.rewrite identity hostname started now).isSelf = true := by
    rw [HostRow.isSelf, (r.rewrite_fields identity hostname started now).2.2.1]
    exact hs
  have hask : ∃ host, r.Tells host ∧ db.localHost? = .ok (some host) := by
    rcases hdb.localHost? with ⟨-, hpeers⟩ | ⟨r', hr', host, hs', htells, hlocal, -⟩
    · rw [HostRow.not_isSelf_of_isPeer (hpeers r mem)] at hs
      cases hs
    · rcases hdb.distinct.apart hr' mem with rfl | hap
      · exact ⟨host, htells, hlocal⟩
      · rw [hap.self hs'] at hs
        cases hs
  obtain ⟨host, htells, hlocal⟩ := hask
  have hlocal' : exec (ask Database.localHost?) db = (.ok (some host), db) := by
    rw [exec_ask, hlocal]
  refine (exec_bind_of_ok hlocal').trans ?_
  refine (exec_bind_of_ok (exec_releaseAddresses identity host.id hdb.distinct)).trans ?_
  rw [htells.id]
  have hupdate : exec (updateHosts (·.id = r.id) fun s =>
        s.rewrite identity hostname started now)
      { db with hosts := db.hosts.map (HostRow.release identity r.id) } =
      (.ok (), db.rewritten identity hostname started now r.id) := exec_updateHosts_id hdist
  refine (exec_bind_of_ok hupdate).trans ?_
  rw [exec_ask]
  exact Prod.ext (Database.selfRecord_eq hdist hmem hisSelf) rfl

/-- The tables with the addresses of an identity taken from all peers. -/
def Database.released (db : Database) (identity : Identity) : Database :=
  { db with hosts := db.hosts.map (HostRow.release identity 0) }

/-- Without a row for the local host the addresses are taken all the same. -/
theorem Statements.exec_writeOwn_of_not_self (hd : Distinct db.hosts)
    (hself : ∀ r ∈ db.hosts, r.isSelf = false) (identity : Identity) (hostname : String)
    (started : Bool) (now : String) :
    exec (writeOwn identity hostname started now) db =
      if started then
        exec (insertHost (HostRow.ofSelf identity hostname now) >>= fun _ =>
          ask Database.selfRecord) (db.released identity)
      else (.error .notFound, db.released identity) := by
  have hnone : db.hosts.find? HostRow.isSelf = none :=
    List.find?_eq_none.mpr fun r hr hs => by
      rw [hself r hr] at hs
      cases hs
  have hlocal : exec (ask Database.localHost?) db = (.ok none, db) := by
    rw [exec_ask, Database.localHost?, hnone]
  refine (exec_bind_of_ok hlocal).trans ?_
  refine (exec_bind_of_ok (exec_releaseAddresses identity 0 hd)).trans ?_
  cases started <;> rfl

theorem Statements.exec_startOwn (hdb : db.HostsSound) (identity : Identity) (now : String)
    (peers : ∀ s ∈ db.hosts, s.isPeer = true)
    (free : ∀ s ∈ db.hosts, s.isPeer = true → s.hostname ≠ hostname) :
    exec (insertHost (HostRow.ofSelf identity hostname now) >>= fun _ => ask Database.selfRecord)
        (db.released identity) =
      if db.lastHost < Cell.highest then
        (ofTable (HostRow.ofSelf identity hostname now (db.lastHost + 1)).readSelf,
          db.started identity hostname now)
      else (.error full, db.released identity) := by
  have hdist := hdb.distinct_started identity now peers free
  have hinsert := exec_insertHost (db.released identity) (HostRow.ofSelf identity hostname now)
    (fun r hr => by
      obtain ⟨r0, hr0, rfl⟩ := List.mem_map.mp hr
      rw [(r0.stripped_release identity 0).id]
      exact (hdb.numbered r0 hr0).2) hdist
  by_cases hroom : db.lastHost < Cell.highest
  · have hroom' : (db.released identity).lastHost < Cell.highest := hroom
    rw [if_pos hroom'] at hinsert
    rw [if_pos hroom]
    have hmem := db.mem_started identity hostname now
    have hisSelf : (HostRow.ofSelf identity hostname now (db.lastHost + 1)).isSelf = true :=
      (HostRow.isSelf_iff _).mpr rfl
    have hlast : exec (ask Database.selfRecord) (db.started identity hostname now) =
        (ofTable (HostRow.ofSelf identity hostname now (db.lastHost + 1)).readSelf,
          db.started identity hostname now) := by
      rw [exec_ask, Database.selfRecord_eq hdist hmem hisSelf]
    exact (exec_bind_of_ok hinsert).trans hlast
  · have hroom' : ¬(db.released identity).lastHost < Cell.highest := hroom
    rw [if_neg hroom'] at hinsert
    rw [if_neg hroom]
    exact exec_bind_of_error hinsert

/-- Every recording of what the local host says of itself on a sound table is one of those
listed. -/
theorem Statements.writeSelf_selfWritten (hdb : db.HostsSound) (hnow : IsStoredTime now)
    (identity : Identity) (started : Bool) :
    ∃ answer after, (writeSelf identity started now).transact db = (answer, after) ∧
      SelfWritten db identity started now answer after := by
  by_cases hne : Text.trim identity.hostname = ""
  · exact ⟨_, _, transact_of_error (exec_bind_of_error (exec_hostnameOf_blank hne db)),
      .unnamed hne⟩
  have hexec := exec_writeSelf db started now hne
  have hfreed := hdb.freed (Text.trim identity.hostname)
  have hfree := fun s => hdb.hostname_ne_of_mem_freed hne (r := s)
  rcases hdb.localHost? with ⟨-, hpeers⟩ | ⟨self, hself, -, hs, -⟩
  · have hpeers' : ∀ s ∈ (db.freed (Text.trim identity.hostname)).hosts, s.isPeer = true :=
      fun s hmem => hpeers s (Database.mem_of_mem_freed hmem)
    have hself : ∀ s ∈ (db.freed (Text.trim identity.hostname)).hosts, s.isSelf = false :=
      fun s hmem => HostRow.not_isSelf_of_isPeer (hpeers' s hmem)
    have hown := exec_writeOwn_of_not_self hfreed.distinct hself identity
      (Text.trim identity.hostname) started now
    cases started with
    | false => exact ⟨_, _, transact_of_error (hexec.trans hown), .notStarted hne hpeers rfl⟩
    | true =>
      replace hown := hown.trans (exec_startOwn hfreed identity now hpeers' hfree)
      rw [Database.lastHost_freed] at hown
      by_cases hroom : db.lastHost < Cell.highest
      · obtain ⟨record, hrecord⟩ := (HostRow.sound_ofSelf identity hne
          (Text.trim_trim _) hnow (db.lastHost + 1)).readSelf rfl
        rw [if_pos hroom, hrecord] at hown
        exact ⟨_, _, transact_of_ok (hexec.trans hown), .started hne hpeers rfl hroom hrecord⟩
      · rw [if_neg hroom] at hown
        have := hdb.lastHost.2
        exact ⟨_, _, transact_of_error (hexec.trans hown), .full hne hpeers rfl (by omega)⟩
  · have hown := exec_writeOwn_of_self hfreed identity started now
      (hdb.self_mem_freed _ hself hs) hs hfree
    have hsound := hdb.rows self hself
    by_cases hworn : started = true ∧ self.restarts = .whole Cell.highest
    · obtain ⟨rfl, hlast⟩ := hworn
      rw [hsound.readSelf_worn hne (Text.trim_trim _) hnow hlast] at hown
      exact ⟨_, _, transact_of_error (hexec.trans hown), .worn hne hself hs rfl hlast⟩
    · have hfits : started = true → self.restarts ≠ .whole Cell.highest :=
        fun hst hlast => hworn ⟨hst, hlast⟩
      have hsound' := hsound.rewrite hs identity hne (Text.trim_trim _) hnow hfits
      obtain ⟨record, hrecord⟩ := hsound'.readSelf (by
        rw [HostRow.isSelf, (self.rewrite_fields identity _ started now).2.2.1]
        exact hs)
      rw [hrecord] at hown
      exact ⟨_, _, transact_of_ok (hexec.trans hown), .rewritten hne hself hs hfits hrecord⟩

theorem SelfWritten.sound {answer : Except Fault PeerHealth.SelfRecord} {after : Database}
    (h : SelfWritten db identity started now answer after) (hdb : db.HostsSound)
    (hnow : IsStoredTime now) : after.HostsSound := by
  have hfreed := hdb.freed (Text.trim identity.hostname)
  cases h with
  | unnamed => exact hdb
  | rewritten named mem isSelf fits =>
    have hmem := hdb.self_mem_freed (Text.trim identity.hostname) mem isSelf
    have hdist := hfreed.distinct_rewritten identity started now hmem isSelf fun s =>
      hdb.hostname_ne_of_mem_freed named
    exact hfreed.change hmem (HostRow.rewrite_fields _ identity _ started now).1
      ((hdb.rows _ mem).rewrite isSelf identity named (Text.trim_trim _) hnow fits) hdist
  | worn => exact hdb
  | started named peers starts room =>
    have hdist := hfreed.distinct_started identity now
      (fun s hs => peers s (Database.mem_of_mem_freed hs))
      fun s => hdb.hostname_ne_of_mem_freed named
    refine hfreed.add (HostRow.sound_ofSelf identity named (Text.trim_trim _) hnow _) rfl ?_ hdist
    rw [Database.lastHost_freed]
    exact room
  | notStarted => exact hdb
  | full => exact hdb

end Rewrite
end PeerHealth.Store
