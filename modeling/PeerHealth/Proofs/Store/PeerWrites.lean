import PeerHealth.Proofs.Store.Sound

/-! Recording what a peer says of itself. Main statements: all that this can come to on a sound
table, and that the table stays sound. -/

namespace PeerHealth.Store

namespace Database

/-- The identity is about the peer in row `r`: the one of the name, otherwise the one with its
internal address, otherwise the one with its public address. -/
inductive IsAbout (db : Database) (identity : Identity) (hostname : String) (r : HostRow) : Prop
  | named (name : db.PeerWith HostRow.hostname hostname r)
  | internal (unnamed : ∀ s, ¬db.PeerWith HostRow.hostname hostname s)
      (address : db.PeerWith HostRow.internalAddress identity.internalAddress r)
  | external (unnamed : ∀ s, ¬db.PeerWith HostRow.hostname hostname s)
      (unheld : ∀ s, ¬db.PeerWith HostRow.internalAddress identity.internalAddress s)
      (address : db.PeerWith HostRow.publicAddress identity.publicAddress r)

variable {db : Database} {identity : Identity} {hostname : String}

namespace IsAbout

variable {r : HostRow}

theorem mem (h : db.IsAbout identity hostname r) : r ∈ db.hosts := by
  cases h with
  | named name => exact name.mem
  | internal _ address => exact address.mem
  | external _ _ address => exact address.mem

theorem isPeer (h : db.IsAbout identity hostname r) : r.isPeer = true := by
  cases h with
  | named name => exact name.isPeer
  | internal _ address => exact address.isPeer
  | external _ _ address => exact address.isPeer

theorem describedBy (h : db.IsAbout identity hostname r) : r.DescribedBy identity hostname := by
  cases h with
  | named name => exact .inl name.holds
  | internal _ address => exact .inr (.inl ⟨address.nonempty, address.holds⟩)
  | external _ _ address => exact .inr (.inr ⟨address.nonempty, address.holds⟩)

/-- The peer that an identity is about has the name, unless no peer has. -/
theorem hostname_eq (h : db.IsAbout identity hostname r) {s : HostRow}
    (hs : db.PeerWith HostRow.hostname hostname s) : r.hostname = hostname := by
  cases h with
  | named name => exact name.holds
  | internal unnamed | external unnamed => exact absurd hs (unnamed s)

end IsAbout

theorem exists_isAbout {id : Int} (h : db.peerOf? identity hostname = some id) :
    ∃ r, db.IsAbout identity hostname r ∧ r.id = id := by
  unfold peerOf? at h
  cases hn : db.peerId? HostRow.hostname hostname with
  | some i =>
    obtain ⟨r, name, hid⟩ := exists_peerWith hn
    rw [hn] at h
    exact ⟨r, .named name, hid.trans (Option.some.inj h)⟩
  | none =>
    have unnamed := peerId?_eq_none_iff.mp hn
    cases hi : db.peerId? HostRow.internalAddress identity.internalAddress with
    | some i =>
      obtain ⟨r, address, hid⟩ := exists_peerWith hi
      rw [hn, hi] at h
      exact ⟨r, .internal unnamed address, hid.trans (Option.some.inj h)⟩
    | none =>
      rw [hn, hi] at h
      obtain ⟨r, address, hid⟩ := exists_peerWith h
      exact ⟨r, .external unnamed (peerId?_eq_none_iff.mp hi) address, hid⟩

theorem peerOf?_eq_none_iff :
    db.peerOf? identity hostname = none ↔ ∀ r, ¬db.IsAbout identity hostname r := by
  constructor
  · intro h
    simp only [peerOf?, Option.orElse_eq_or, Option.or_eq_none_iff] at h
    obtain ⟨⟨hn, hi⟩, he⟩ := h
    rintro r (name | ⟨-, address⟩ | ⟨-, -, address⟩)
    · exact peerId?_eq_none_iff.mp hn r name
    · exact peerId?_eq_none_iff.mp hi r address
    · exact peerId?_eq_none_iff.mp he r address
  · intro h
    cases hfound : db.peerOf? identity hostname with
    | none => rfl
    | some id =>
      obtain ⟨r, about, -⟩ := exists_isAbout hfound
      exact absurd about (h r)

/-- An identity that describes a peer is about one. -/
theorem exists_isAbout_of_describedBy (named : hostname ≠ "") {r : HostRow} (mem : r ∈ db.hosts)
    (isPeer : r.isPeer = true) (described : r.DescribedBy identity hostname) :
    ∃ s, db.IsAbout identity hostname s := by
  by_cases hname : ∃ s, db.PeerWith HostRow.hostname hostname s
  · exact hname.imp fun s hs => .named hs
  · have unnamed := not_exists.mp hname
    by_cases hin : ∃ s, db.PeerWith HostRow.internalAddress identity.internalAddress s
    · exact hin.imp fun s hs => .internal unnamed hs
    · have unheld := not_exists.mp hin
      rcases described with heq | ⟨hne, heq⟩ | ⟨hne, heq⟩
      · exact absurd ⟨mem, isPeer, heq, named⟩ (unnamed r)
      · exact absurd ⟨mem, isPeer, heq, hne⟩ (unheld r)
      · exact ⟨r, .external unnamed unheld ⟨mem, isPeer, heq, hne⟩⟩

/-- The tables with an identity merged into the peer with a number. -/
def merged (db : Database) (identity : Identity) (hostname now : String) (id : Int) : Database :=
  { db with
    hosts := (db.hosts.map (HostRow.release identity id)).map fun r =>
      if r.id = id then r.merge identity hostname now else r }

/-- The tables with a new peer. -/
def created (db : Database) (identity : Identity) (hostname now : String) : Database :=
  { db with
    hosts := db.hosts.map (HostRow.release identity 0) ++
      [HostRow.ofPeer identity hostname now (db.lastHost + 1)]
    lastHost := db.lastHost + 1 }

end Database

/-- All that recording what a peer says of itself can come to. -/
inductive Upserted (db : Database) (identity : Identity) (now : String) :
    Except Fault Host → Database → Prop
  | unnamed (blank : Text.trim identity.hostname = "") :
      Upserted db identity now (.error (.invalid "empty hostname")) db
  | own {self : HostRow} (named : Text.trim identity.hostname ≠ "") (mem : self ∈ db.hosts)
      (isSelf : self.isSelf = true)
      (described : self.DescribedBy identity (Text.trim identity.hostname)) :
      Upserted db identity now (.error (.isLocal (Text.trim identity.hostname))) db
  | merged {r : HostRow} {host : Host} (named : Text.trim identity.hostname ≠ "")
      (free : ∀ s ∈ db.hosts, s.isSelf = true →
        ¬s.DescribedBy identity (Text.trim identity.hostname))
      (mem : r ∈ db.hosts) (isPeer : r.isPeer = true)
      (found : db.peerOf? identity (Text.trim identity.hostname) = some r.id)
      (tells : (r.merge identity (Text.trim identity.hostname) now).Tells host) :
      Upserted db identity now (.ok host)
        (db.merged identity (Text.trim identity.hostname) now r.id)
  | created {host : Host} (named : Text.trim identity.hostname ≠ "")
      (free : ∀ s ∈ db.hosts, s.isSelf = true →
        ¬s.DescribedBy identity (Text.trim identity.hostname))
      (none : db.peerOf? identity (Text.trim identity.hostname) = none)
      (room : db.lastHost < Cell.highest)
      (tells : (HostRow.ofPeer identity (Text.trim identity.hostname) now
        (db.lastHost + 1)).Tells host) :
      Upserted db identity now (.ok host)
        (db.created identity (Text.trim identity.hostname) now)
  | full (named : Text.trim identity.hostname ≠ "")
      (free : ∀ s ∈ db.hosts, s.isSelf = true →
        ¬s.DescribedBy identity (Text.trim identity.hostname))
      (none : db.peerOf? identity (Text.trim identity.hostname) = none)
      (last : db.lastHost = Cell.highest) :
      Upserted db identity now (.error Statements.full) db

section Upsert

variable {db : Database} {identity : Identity} {hostname now : String}

theorem HostRow.Sound.merge {r : HostRow} (h : r.Sound) (identity : Identity) (hne : hostname ≠ "")
    (htrim : Text.trim hostname = hostname) (hnow : IsStoredTime now) :
    (r.merge identity hostname now).Sound := by
  refine ⟨hne, htrim, ?_, h.firstSeen, hnow, h.kind, fun hs => ?_⟩
  · obtain ⟨p, hp⟩ := h.servicePort
    by_cases hport : identity.servicePort = 0
    · exact ⟨p, by simpa [HostRow.merge, hport] using hp⟩
    · exact ⟨identity.servicePort, by simp [HostRow.merge, hport]⟩
  · have hst := h.started hs
    exact ⟨hst.restarts, hst.firstStart, hst.lastStart⟩

theorem HostRow.sound_ofPeer (identity : Identity) (hne : hostname ≠ "")
    (htrim : Text.trim hostname = hostname) (hnow : IsStoredTime now) (id : Int) :
    (HostRow.ofPeer identity hostname now id).Sound :=
  ⟨hne, htrim, ⟨identity.servicePort, rfl⟩, hnow, hnow, .inl rfl, fun hs => by
    simp [HostRow.ofPeer] at hs⟩

/-- The peer with an identity merged into it stands beside all others. -/
theorem Database.HostsSound.distinct_merged (hdb : db.HostsSound) (now : String)
    (hne : hostname ≠ "")
    (free : ∀ s ∈ db.hosts, s.isSelf = true → ¬s.DescribedBy identity hostname) {r : HostRow}
    (mem : r ∈ db.hosts) (isPeer : r.isPeer = true)
    (found : db.peerOf? identity hostname = some r.id) :
    Distinct (db.merged identity hostname now r.id).hosts := by
  have hown : ∀ s ∈ db.hosts, s.id = r.id → s = r := fun s hs => hdb.distinct.eq_of_id hs mem
  have hr : r.release identity r.id = r :=
    HostRow.release_of_not_isOther identity (by simp [HostRow.isOther])
  refine (hdb.distinct.strip (HostRow.stripped_release identity r.id)).update ?_
  intro r' hr' hid s' hs' hsid
  obtain ⟨r0, hr0, rfl⟩ := List.mem_map.mp hr'
  obtain ⟨s, hs, rfl⟩ := List.mem_map.mp hs'
  rw [(HostRow.stripped_release identity r.id r0).id] at hid
  rw [(HostRow.stripped_release identity r.id s).id] at hsid
  rw [hown r0 hr0 hid, hr]
  have hap : r.Apart s :=
    (hdb.distinct.apart mem hs).resolve_left fun heq => hsid (by rw [heq])
  refine HostRow.apart_release (Ne.symm hsid) ?_ ?_ ?_ ?_ ?_
  · show hostname ≠ s.hostname
    by_cases hself : s.isSelf = true
    · exact (HostRow.not_describedBy_iff.mp (free s hs hself)).1.symm
    · obtain ⟨r1, about, hid1⟩ := Database.exists_isAbout found
      rw [hown r1 about.mem hid1] at about
      intro heq
      have hname := about.hostname_eq
        ⟨hs, (hdb.rows s hs).isPeer_of_not_isSelf hself, heq.symm, hne⟩
      exact hap.hostname (hname ▸ hne) (hname.trans heq)
  · intro hself
    have : r.isSelf = true := hself
    rw [HostRow.not_isSelf_of_isPeer isPeer] at this
    cases this
  · by_cases hin : identity.internalAddress = ""
    · refine .inr ?_
      simpa [HostRow.merge, replaced, hin] using hap.internal
    · exact .inl (by simp [HostRow.merge, replaced, hin])
  · by_cases hout : identity.publicAddress = ""
    · refine .inr ?_
      simpa [HostRow.merge, replaced, hout] using hap.external
    · exact .inl (by simp [HostRow.merge, replaced, hout])
  · by_cases hself : s.isSelf = true
    · exact .inr (HostRow.not_describedBy_iff.mp (free s hs hself)).2
    · refine .inl ?_
      simp only [HostRow.isOther, Bool.and_eq_true, decide_eq_true_eq]
      exact ⟨hsid, (hdb.rows s hs).isPeer_of_not_isSelf hself⟩

theorem Database.HostsSound.distinct_created (hdb : db.HostsSound) (now : String)
    (hne : hostname ≠ "")
    (free : ∀ s ∈ db.hosts, s.isSelf = true → ¬s.DescribedBy identity hostname)
    (none : db.peerOf? identity hostname = none) :
    Distinct (db.created identity hostname now).hosts := by
  refine (hdb.distinct.strip (HostRow.stripped_release identity 0)).append ?_
  intro s' hs'
  obtain ⟨s, hs, rfl⟩ := List.mem_map.mp hs'
  have hnum := hdb.numbered s hs
  refine HostRow.apart_release ?_ ?_ ?_ (.inl rfl) (.inl rfl) ?_
  · show db.lastHost + 1 ≠ s.id
    omega
  · show hostname ≠ s.hostname
    by_cases hself : s.isSelf = true
    · exact (HostRow.not_describedBy_iff.mp (free s hs hself)).1.symm
    · exact fun heq => Database.peerOf?_eq_none_iff.mp none s
        (.named ⟨hs, (hdb.rows s hs).isPeer_of_not_isSelf hself, heq.symm, hne⟩)
  · intro hself
    cases hself
  · by_cases hself : s.isSelf = true
    · exact .inr (HostRow.not_describedBy_iff.mp (free s hs hself)).2
    · refine .inl ?_
      simp only [HostRow.isOther, Bool.and_eq_true, decide_eq_true_eq]
      exact ⟨by omega, (hdb.rows s hs).isPeer_of_not_isSelf hself⟩

/-- What is left to do once a name is found to be another host's. -/
def Statements.place (identity : Identity) (hostname now : String) : Statements Host := do
  let id ← match (← get).peerOf? identity hostname with
    | some id =>
      releaseAddresses identity id
      updateHosts (·.id = id) fun r => r.merge identity hostname now
      pure id
    | none =>
      releaseAddresses identity 0
      insertHost (HostRow.ofPeer identity hostname now)
  ask (·.hostById id)

theorem Statements.place_merged (hdb : db.HostsSound) (hne : Text.trim identity.hostname ≠ "")
    (hnow : IsStoredTime now)
    (free : ∀ s ∈ db.hosts, s.isSelf = true →
      ¬s.DescribedBy identity (Text.trim identity.hostname)) {r : HostRow} (hr : r ∈ db.hosts)
    (hp : r.isPeer = true)
    (hpeer : db.peerOf? identity (Text.trim identity.hostname) = some r.id) :
    ∃ answer after, (place identity (Text.trim identity.hostname) now).transact db =
      (answer, after) ∧ Upserted db identity now answer after := by
  have hdist := hdb.distinct_merged now hne free hr hp hpeer
  obtain ⟨host, hhost⟩ := ((hdb.rows r hr).merge identity hne
    (Text.trim_trim _) hnow).read
  have hmem : r.merge identity (Text.trim identity.hostname) now ∈
      (db.merged identity (Text.trim identity.hostname) now r.id).hosts := by
    refine List.mem_map.mpr ⟨r, List.mem_map.mpr ⟨r, hr, ?_⟩, if_pos rfl⟩
    exact HostRow.release_of_not_isOther identity (by simp [HostRow.isOther])
  have hupdate : exec (updateHosts (·.id = r.id)
        fun s => s.merge identity (Text.trim identity.hostname) now)
      { db with hosts := db.hosts.map (HostRow.release identity r.id) } =
      (.ok (), db.merged identity (Text.trim identity.hostname) now r.id) :=
    exec_updateHosts_id hdist
  have hfound : (db.merged identity (Text.trim identity.hostname) now r.id).hostById r.id =
      .ok host :=
    Database.hostById_eq_ok (r := r.merge identity (Text.trim identity.hostname) now)
      hdist hmem hhost
  refine ⟨.ok host, _, transact_of_ok ?_, .merged hne free hr hp hpeer hhost⟩
  rw [place, exec_bind_of_ok (exec_get db), hpeer]
  refine (exec_bind_of_ok (exec_releaseAddresses identity r.id hdb.distinct)).trans ?_
  refine (exec_bind_of_ok hupdate).trans ?_
  refine (exec_bind_of_ok (exec_pure r.id _)).trans ?_
  rw [exec_ask, hfound]

theorem Statements.place_created (hdb : db.HostsSound) (hne : Text.trim identity.hostname ≠ "")
    (hnow : IsStoredTime now)
    (free : ∀ s ∈ db.hosts, s.isSelf = true →
      ¬s.DescribedBy identity (Text.trim identity.hostname))
    (hpeer : db.peerOf? identity (Text.trim identity.hostname) = none) :
    ∃ answer after, (place identity (Text.trim identity.hostname) now).transact db =
      (answer, after) ∧ Upserted db identity now answer after := by
  have hdist := hdb.distinct_created now hne free hpeer
  have hinsert := exec_insertHost
    { db with hosts := db.hosts.map (HostRow.release identity 0) }
    (HostRow.ofPeer identity (Text.trim identity.hostname) now)
    (fun r hr => by
      obtain ⟨r0, hr0, rfl⟩ := List.mem_map.mp hr
      rw [(r0.stripped_release identity 0).id]
      exact (hdb.numbered r0 hr0).2) hdist
  have hexec := exec_bind_of_ok (f := fun _ : Unit => do
      let id ← insertHost (HostRow.ofPeer identity (Text.trim identity.hostname) now)
      ask (·.hostById id)) (exec_releaseAddresses identity 0 hdb.distinct)
  by_cases hroom : db.lastHost < Cell.highest
  · rw [if_pos hroom] at hinsert
    obtain ⟨host, hhost⟩ := (HostRow.sound_ofPeer identity hne (Text.trim_trim _)
      hnow (db.lastHost + 1)).read
    have hfound : (db.created identity (Text.trim identity.hostname) now).hostById
        (db.lastHost + 1) = .ok host :=
      Database.hostById_eq_ok hdist (List.mem_append_right _ (List.mem_singleton_self _)) hhost
    refine ⟨.ok host, _, transact_of_ok ?_, .created hne free hpeer hroom hhost⟩
    rw [place, exec_bind_of_ok (exec_get db), hpeer]
    refine hexec.trans ((exec_bind_of_ok hinsert).trans ?_)
    rw [exec_ask]
    exact Prod.ext hfound rfl
  · rw [if_neg hroom] at hinsert
    have := hdb.lastHost.2
    have hfull : exec (place identity (Text.trim identity.hostname) now) db =
        (.error full, { db with hosts := db.hosts.map (HostRow.release identity 0) }) := by
      rw [place, exec_bind_of_ok (exec_get db), hpeer]
      exact hexec.trans (exec_bind_of_error hinsert)
    exact ⟨_, _, transact_of_error hfull, .full hne free hpeer (by omega)⟩

theorem Statements.place_upserted (hdb : db.HostsSound)
    (hne : Text.trim identity.hostname ≠ "") (hnow : IsStoredTime now)
    (free : ∀ s ∈ db.hosts, s.isSelf = true →
      ¬s.DescribedBy identity (Text.trim identity.hostname)) :
    ∃ answer after, (place identity (Text.trim identity.hostname) now).transact db =
      (answer, after) ∧ Upserted db identity now answer after := by
  cases hpeer : db.peerOf? identity (Text.trim identity.hostname) with
  | some id =>
    obtain ⟨r, about, rfl⟩ := Database.exists_isAbout hpeer
    exact place_merged hdb hne hnow free about.mem about.isPeer hpeer
  | none => exact place_created hdb hne hnow free hpeer

/-- Every recording of what a peer says of itself on a sound table is one of those listed. -/
theorem Statements.upsertHost_upserted (hdb : db.HostsSound) (hnow : IsStoredTime now)
    (identity : Identity) :
    ∃ answer after, (Statements.upsertHost identity now).transact db = (answer, after) ∧
      Upserted db identity now answer after := by
  by_cases hne : Text.trim identity.hostname = ""
  · exact ⟨_, _, transact_of_error (exec_bind_of_error (exec_hostnameOf_blank hne db)),
      .unnamed hne⟩
  · have hname := exec_hostnameOf hne db
    rcases hdb.localHost? with ⟨hlocal, hpeers⟩ | ⟨self, hself, host, hs, htells, hlocal, -⟩
    · have hself : exec (ask Database.localHost?) db = (.ok none, db) := by rw [exec_ask, hlocal]
      have hexec : exec (Statements.upsertHost identity now) db =
          exec (place identity (Text.trim identity.hostname) now) db := by
        refine (exec_bind_of_ok hname).trans ?_
        refine (exec_bind_of_ok hself).trans ?_
        rfl
      rw [transact_congr hexec]
      refine place_upserted hdb hne hnow ?_
      intro s hmem hs
      rw [HostRow.not_isSelf_of_isPeer (hpeers s hmem)] at hs
      cases hs
    · have hask : exec (ask Database.localHost?) db = (.ok (some host), db) := by
        rw [exec_ask, hlocal]
      by_cases hd : self.DescribedBy identity (Text.trim identity.hostname)
      · have hexec : exec (Statements.upsertHost identity now) db =
            (.error (.isLocal (Text.trim identity.hostname)), db) := by
          refine (exec_bind_of_ok hname).trans ?_
          refine (exec_bind_of_ok hask).trans ?_
          show exec (if describes identity (Text.trim identity.hostname) host then _ else _) db = _
          rw [if_pos ((describes_iff htells identity _).mpr hd)]
          rfl
        exact ⟨_, _, transact_of_error hexec, .own hne hself hs hd⟩
      · have hexec : exec (Statements.upsertHost identity now) db =
            exec (place identity (Text.trim identity.hostname) now) db := by
          refine (exec_bind_of_ok hname).trans ?_
          refine (exec_bind_of_ok hask).trans ?_
          show exec (if describes identity (Text.trim identity.hostname) host then _ else _) db = _
          rw [if_neg fun hdesc => hd ((describes_iff htells identity _).mp hdesc)]
          rfl
        rw [transact_congr hexec]
        refine place_upserted hdb hne hnow ?_
        intro s hmem hs'
        rcases hdb.distinct.apart hself hmem with rfl | hap
        · exact hd
        · rw [hap.self hs] at hs'
          cases hs'

theorem Upserted.sound {answer : Except Fault Host} {after : Database}
    (h : Upserted db identity now answer after) (hdb : db.HostsSound) (hnow : IsStoredTime now) :
    after.HostsSound := by
  cases h with
  | unnamed => exact hdb
  | own => exact hdb
  | merged named free mem isPeer found =>
    exact hdb.change mem rfl ((hdb.rows _ mem).merge identity named (Text.trim_trim _) hnow)
      (hdb.distinct_merged now named free mem isPeer found)
  | created named free none room =>
    exact hdb.add (HostRow.sound_ofPeer identity named (Text.trim_trim _) hnow _) rfl room
      (hdb.distinct_created now named free none)
  | full => exact hdb

end Upsert

/-- All that deleting a host can come to. -/
inductive Deleted (db : Database) (id : Int) : Except Fault Unit → Database → Prop
  | missing (missing : ∀ r ∈ db.hosts, r.id ≠ id) : Deleted db id (.error .notFound) db
  | own {self : HostRow} (mem : self ∈ db.hosts) (isSelf : self.isSelf = true)
      (hid : self.id = id) :
      Deleted db id (.error (.conflict "cannot delete the local node")) db
  | deleted {r : HostRow} (mem : r ∈ db.hosts) (isPeer : r.isPeer = true) (hid : r.id = id) :
      Deleted db id (.ok ()) (db.without id)

/-- The statements of a deletion. -/
def Statements.deletePeer (id : Int) : Statements Unit := do
  let host ← ask (·.hostById id)
  if host.isLocal then throw (.conflict "cannot delete the local node")
  deleteHost id

theorem deleteHost_eq (store : Store) (id : Int) :
    store.deleteHost id = store.transact (Statements.deletePeer id) := rfl

theorem Statements.deletePeer_deleted {db : Database} (hdb : db.HostsSound) (id : Int) :
    ∃ answer after, (deletePeer id).transact db = (answer, after) ∧
      Deleted db id answer after := by
  by_cases hmissing : ∀ r ∈ db.hosts, r.id ≠ id
  · have hask : exec (ask (·.hostById id)) db = (.error .notFound, db) := by
      rw [exec_ask, Database.hostById_eq_notFound hmissing]
    exact ⟨_, _, transact_of_error (exec_bind_of_error hask), .missing hmissing⟩
  · have hfound : ∃ r ∈ db.hosts, r.id = id := by simpa using hmissing
    obtain ⟨r, hr, rfl⟩ := hfound
    obtain ⟨host, hhost⟩ := (hdb.rows r hr).read
    have hask : exec (ask (·.hostById r.id)) db = (.ok host, db) := by
      rw [exec_ask, Database.hostById_eq_ok hdb.distinct hr hhost]
    obtain ⟨n, hn, hlocal⟩ := hhost.isLocal
    by_cases hs : r.isSelf = true
    · have hyes : host.isLocal = true := by
        rw [r.isSelf_iff, hn] at hs
        cases hs
        exact hlocal
      have hexec : exec (deletePeer r.id) db =
          (.error (.conflict "cannot delete the local node"), db) := by
        refine (exec_bind_of_ok hask).trans ?_
        rw [hyes]
        rfl
      exact ⟨_, _, transact_of_error hexec, .own hr hs rfl⟩
    · have hp := (hdb.rows r hr).isPeer_of_not_isSelf hs
      have hno : host.isLocal = false := by
        rw [r.isPeer_iff, hn] at hp
        cases hp
        exact hlocal
      have hexec : exec (deletePeer r.id) db = (.ok (), db.without r.id) := by
        refine (exec_bind_of_ok hask).trans ?_
        rw [hno]
        rfl
      exact ⟨_, _, transact_of_ok hexec, .deleted hr hp rfl⟩

/-- Every deletion from a sound table is one of those listed. -/
theorem deleteHost_deleted {store : Store} (hdb : store.database.HostsSound) (id : Int) :
    ∃ answer after, store.deleteHost id = (answer, { store with database := after }) ∧
      Deleted store.database id answer after := by
  obtain ⟨answer, after, hrun, h⟩ := Statements.deletePeer_deleted hdb id
  refine ⟨answer, after, ?_, h⟩
  rw [deleteHost_eq, Store.transact, hrun]

theorem Deleted.sound {db : Database} {id : Int} {answer : Except Fault Unit} {after : Database}
    (h : Deleted db id answer after) (hdb : db.HostsSound) : after.HostsSound := by
  cases h with
  | missing => exact hdb
  | own => exact hdb
  | deleted => exact hdb.without id

end PeerHealth.Store
