import PeerHealth.Proofs.Store.NewPeers

/-! Recording what a peer says of itself, row by row. Main statements: which host an identity is
about, what that host is told to be afterwards, and what every other host gives up for it; and that
to record an identity once more changes nothing but the time. -/

namespace PeerHealth

/-- A host with what an identity says of it. What the identity leaves empty stays. -/
def Host.merge (h : Host) (identity : Identity) (hostname : String) (now : Time.Instant) : Host :=
  { h with
    hostname
    internalAddress := Store.replaced h.internalAddress identity.internalAddress
    publicAddress := Store.replaced h.publicAddress identity.publicAddress
    discoveredAddress := Store.replaced h.discoveredAddress identity.discoveredAddress
    servicePort := if identity.servicePort = 0 then h.servicePort else identity.servicePort
    lastSeen := now }

/-- A peer of which nothing is known yet. -/
def Host.unknown (id : Int) (now : Time.Instant) : Host :=
  { id, hostname := "", internalAddress := "", publicAddress := "", discoveredAddress := ""
    servicePort := 0, firstSeen := now, lastSeen := now, isLocal := false }

namespace Store

/-- What is left of a row when an identity is recorded of another host: a peer gives up the
addresses that the identity has in the same column, and the local host gives up nothing. -/
def HostRow.yielding (identity : Identity) (r : HostRow) : HostRow :=
  if r.isPeer then
    { r with
      internalAddress :=
        if r.internalAddress = identity.internalAddress then "" else r.internalAddress
      publicAddress := if r.publicAddress = identity.publicAddress then "" else r.publicAddress }
  else r

/-- Two rows may not have the same text in the column. -/
def HostRow.Key (column : HostRow → String) : Prop :=
  ∀ {r s : HostRow}, r.Apart s → column r ≠ "" → column r ≠ column s

namespace HostRow

theorem key_hostname : Key HostRow.hostname := fun h => h.hostname

theorem key_internalAddress : Key HostRow.internalAddress := fun h => h.internal

theorem key_publicAddress : Key HostRow.publicAddress := fun h => h.external

theorem Key.eq {column : HostRow → String} (hkey : Key column) {rows : List HostRow}
    (hrows : Distinct rows) {r s : HostRow} (hr : r ∈ rows) (hs : s ∈ rows) (hne : column r ≠ "")
    (heq : column r = column s) : r = s :=
  (hrows.apart hr hs).resolve_right fun hap => hkey hap hne heq

theorem Tells.unique {r : HostRow} {g h : Host} (hg : r.Tells g) (hh : r.Tells h) : g = h :=
  Except.ok.inj ((read_eq_ok_iff.mpr hg).symm.trans (read_eq_ok_iff.mpr hh))

theorem Tells.merge {r : HostRow} {h : Host} (htells : r.Tells h) (identity : Identity)
    (hostname : String) (now : Time.Moment) :
    (r.merge identity hostname (Time.storedText now.1)).Tells
      (h.merge identity hostname now.1) := by
  obtain ⟨hid, -, hin, hout, hdisc, hport, hfirst, -, hlocal⟩ := htells
  have hread := Time.parseTime?_storedText now.2
  refine ⟨hid, rfl, ?_, ?_, ?_, ?_, hfirst, hread, hlocal⟩
  · rw [HostRow.merge, Host.merge, hin]
  · rw [HostRow.merge, Host.merge, hout]
  · rw [HostRow.merge, Host.merge, hdisc]
  · by_cases h0 : identity.servicePort = 0 <;> simp [HostRow.merge, Host.merge, h0, hport]

theorem replaced_empty (text : String) : replaced "" text = text := by
  unfold replaced
  split <;> simp_all

/-- The row of a new peer tells what an identity makes of a peer that nothing was known of. -/
theorem tells_ofPeer (identity : Identity) (hostname : String) (now : Time.Moment) (id : Int) :
    (ofPeer identity hostname (Time.storedText now.1) id).Tells
      ((Host.unknown id now.1).merge identity hostname now.1) := by
  have hread := Time.parseTime?_storedText now.2
  refine ⟨rfl, rfl, replaced_empty _, replaced_empty _, replaced_empty _, ?_, hread, hread, 0, rfl,
    rfl⟩
  by_cases h0 : identity.servicePort = 0 <;> simp [ofPeer, Host.merge, Host.unknown, h0]

@[simp] theorem id_yielding (identity : Identity) (r : HostRow) :
    (r.yielding identity).id = r.id := by
  unfold yielding
  split <;> rfl

theorem internalAddress_yielding (identity : Identity) (r : HostRow) :
    (r.yielding identity).internalAddress =
      if r.isPeer ∧ r.internalAddress = identity.internalAddress then ""
      else r.internalAddress := by
  unfold yielding
  split <;> simp_all

/-- The addresses that others lose to a host are those that they yield. -/
theorem release_eq_yielding {identity : Identity} {keep : Int} {r : HostRow} (hne : r.id ≠ keep) :
    r.release identity keep = r.yielding identity := by
  by_cases hp : r.isPeer = true
  · have hother : r.isOther keep = true := by simp [isOther, hne, hp]
    have hother' : ∀ address, (r.dropInternal keep address).isOther keep = true := by
      intro address
      obtain ⟨-, -, -, hl, hid⟩ := r.stripped_dropInternal keep address
      simpa only [isOther, isPeer, hl, hid] using hother
    rw [release, dropExternal, hother', dropInternal, hother, yielding, if_pos hp]
    by_cases hi : r.internalAddress = identity.internalAddress <;>
      by_cases he : r.publicAddress = identity.publicAddress <;> simp [hi, he]
  · have hother : r.isOther keep = false := by simp [isOther, hp]
    rw [release_of_not_isOther identity hother, yielding, if_neg hp]

/-- A row that an identity does not describe has nothing to give up. -/
theorem yielding_of_not_describedBy {identity : Identity} {hostname : String} {r : HostRow}
    (h : ¬r.DescribedBy identity hostname) : r.yielding identity = r := by
  have hne : r.id ≠ r.id + 1 := by omega
  rw [← release_eq_yielding hne, release_of_not_describedBy h]

end HostRow

namespace Database

variable {db : Database} {identity : Identity} {column : HostRow → String} {text : String}

theorem PeerWith.eq (hdb : Distinct db.hosts) (hkey : HostRow.Key column) {r s : HostRow}
    (hr : db.PeerWith column text r) (hs : db.PeerWith column text s) : r = s :=
  hkey.eq hdb hr.mem hs.mem (hr.holds.symm ▸ hr.nonempty) (hr.holds.trans hs.holds.symm)

theorem PeerWith.peerId?_eq (hdb : Distinct db.hosts) (hkey : HostRow.Key column) {r : HostRow}
    (hr : db.PeerWith column text r) : db.peerId? column text = some r.id := by
  cases hfound : db.peerId? column text with
  | none => exact absurd hr (peerId?_eq_none_iff.mp hfound r)
  | some id =>
    obtain ⟨s, hs, rfl⟩ := exists_peerWith hfound
    rw [hr.eq hdb hkey hs]

theorem IsAbout.peerOf?_eq (hdb : Distinct db.hosts) {hostname : String} {r : HostRow}
    (h : db.IsAbout identity hostname r) : db.peerOf? identity hostname = some r.id := by
  unfold peerOf?
  cases h with
  | named name =>
    rw [name.peerId?_eq hdb HostRow.key_hostname]
    rfl
  | internal unnamed address =>
    rw [peerId?_eq_none_iff.mpr unnamed, address.peerId?_eq hdb HostRow.key_internalAddress]
    rfl
  | external unnamed unheld address =>
    rw [peerId?_eq_none_iff.mpr unnamed, peerId?_eq_none_iff.mpr unheld,
      address.peerId?_eq hdb HostRow.key_publicAddress]
    rfl

/-- The table with an identity merged into one row, and the addresses that the others yield. -/
theorem merged_eq (hdb : Distinct db.hosts) (now : String) {r : HostRow} (mem : r ∈ db.hosts) :
    db.merged identity (Text.trim identity.hostname) now r.id =
      { db with
        hosts := db.hosts.map fun s =>
          if s = r then r.merge identity (Text.trim identity.hostname) now
          else s.yielding identity } := by
  rw [merged, List.map_map]
  congr 1
  refine List.map_congr_left fun s hs => ?_
  simp only [Function.comp_apply, (s.stripped_release identity r.id).id]
  by_cases heq : s = r
  · rw [if_pos (by rw [heq]), if_pos heq, heq,
      HostRow.release_of_not_isOther identity (by simp [HostRow.isOther])]
  · have hid : s.id ≠ r.id := fun hid => heq (hdb.eq_of_id hs mem hid)
    rw [if_neg hid, if_neg heq, HostRow.release_eq_yielding hid]

theorem HostsSound.created_eq (hdb : db.HostsSound) (now : String) :
    db.created identity (Text.trim identity.hostname) now =
      { db with
        hosts := db.hosts.map (HostRow.yielding identity) ++
          [HostRow.ofPeer identity (Text.trim identity.hostname) now (db.lastHost + 1)]
        lastHost := db.lastHost + 1 } := by
  have hyield : db.hosts.map (HostRow.release identity 0) =
      db.hosts.map (HostRow.yielding identity) :=
    List.map_congr_left fun s hs =>
      HostRow.release_eq_yielding (by have := (hdb.numbered s hs).1; omega)
  rw [created, hyield]

end Database

section Merging

variable {db after : Database} {identity : Identity} {answer : Except Fault Host}

/-- An identity is refused as a conflict exactly if it describes the local host. -/
theorem Upserted.conflict_iff {now : String} (h : Upserted db identity now answer after)
    (named : Text.trim identity.hostname ≠ "") :
    (∃ reason, answer = .error (.conflict reason)) ↔
      ∃ self ∈ db.hosts, self.isSelf = true ∧
        self.DescribedBy identity (Text.trim identity.hostname) := by
  cases h with
  | unnamed blank => exact absurd blank named
  | own _ mem isSelf described =>
    exact ⟨fun _ => ⟨_, mem, isSelf, described⟩, fun _ => ⟨_, rfl⟩⟩
  | merged _ free | created _ free | full _ free =>
    refine ⟨?_, fun ⟨self, mem, isSelf, described⟩ => absurd described (free self mem isSelf)⟩
    rintro ⟨reason, ⟨⟩⟩

/-- An identity that describes the local host is not recorded. -/
theorem Upserted.eq_of_own {now : String} (h : Upserted db identity now answer after)
    {self : HostRow} (mem : self ∈ db.hosts) (isSelf : self.isSelf = true)
    (described : self.DescribedBy identity (Text.trim identity.hostname)) : after = db := by
  cases h with
  | unnamed | own | full => rfl
  | merged _ free | created _ free => exact absurd described (free self mem isSelf)

variable {now : Time.Moment}

/-- The host that an identity is about has it merged into it, and the others yield to it. -/
theorem Upserted.of_isAbout (h : Upserted db identity (Time.storedText now.1) answer after)
    (hdb : db.HostsSound) (named : Text.trim identity.hostname ≠ "")
    (free : ∀ s ∈ db.hosts, s.isSelf = true →
      ¬s.DescribedBy identity (Text.trim identity.hostname))
    {r : HostRow} (about : db.IsAbout identity (Text.trim identity.hostname) r) {host : Host}
    (tells : r.Tells host) :
    answer = .ok (host.merge identity (Text.trim identity.hostname) now.1) ∧
      after = { db with
        hosts := db.hosts.map fun s =>
          if s = r then r.merge identity (Text.trim identity.hostname) (Time.storedText now.1)
          else s.yielding identity } := by
  have hpeer := about.peerOf?_eq hdb.distinct
  cases h with
  | unnamed blank => exact absurd blank named
  | own _ mem isSelf described => exact absurd described (free _ mem isSelf)
  | @merged s _ _ _ mem _ found tells' =>
    have hid : r.id = s.id := Option.some.inj (hpeer.symm.trans found)
    obtain rfl := hdb.distinct.eq_of_id about.mem mem hid
    exact ⟨congrArg Except.ok (tells'.unique (tells.merge identity _ now)),
      Database.merged_eq hdb.distinct _ mem⟩
  | created _ _ none | full _ _ none =>
    rw [hpeer] at none
    cases none

/-- An identity that is about no host gets a row of its own, and the others yield to it, unless
there is no number left for the row. -/
theorem Upserted.of_not_isAbout (h : Upserted db identity (Time.storedText now.1) answer after)
    (hdb : db.HostsSound) (named : Text.trim identity.hostname ≠ "")
    (free : ∀ s ∈ db.hosts, s.isSelf = true →
      ¬s.DescribedBy identity (Text.trim identity.hostname))
    (nobody : ∀ r, ¬db.IsAbout identity (Text.trim identity.hostname) r) :
    (db.lastHost < Cell.highest ∧
      answer = .ok ((Host.unknown (db.lastHost + 1) now.1).merge identity
        (Text.trim identity.hostname) now.1) ∧
      after = { db with
        hosts := db.hosts.map (HostRow.yielding identity) ++
          [HostRow.ofPeer identity (Text.trim identity.hostname) (Time.storedText now.1)
            (db.lastHost + 1)]
        lastHost := db.lastHost + 1 }) ∨
      (db.lastHost = Cell.highest ∧ answer = .error Statements.full ∧ after = db) := by
  have hpeer := Database.peerOf?_eq_none_iff.mpr nobody
  cases h with
  | unnamed blank => exact absurd blank named
  | own _ mem isSelf described => exact absurd described (free _ mem isSelf)
  | merged _ _ _ _ found =>
    rw [hpeer] at found
    cases found
  | created _ _ _ room tells =>
    exact .inl ⟨room, congrArg Except.ok (tells.unique (HostRow.tells_ofPeer identity _ now _)),
      hdb.created_eq _⟩
  | full _ _ _ last => exact .inr ⟨last, rfl, rfl⟩

/-- The other hosts are those that there were, with what they yield taken from them. -/
theorem Upserted.others {now : String} {host : Host}
    (h : Upserted db identity now (.ok host) after) (hdb : db.HostsSound) {s : HostRow} :
    s ∈ after.hosts ∧ s.id ≠ host.id ↔
      ∃ r ∈ db.hosts, r.id ≠ host.id ∧ r.yielding identity = s := by
  cases h with
  | @merged r _ _ _ mem _ _ tells =>
    have hid : host.id = r.id := tells.id
    rw [Database.merged_eq hdb.distinct now mem, hid]
    constructor
    · rintro ⟨hs, hne⟩
      obtain ⟨q, hq, rfl⟩ := List.mem_map.mp hs
      by_cases heq : q = r
      · rw [if_pos heq] at hne
        exact absurd rfl hne
      · rw [if_neg heq] at hne ⊢
        exact ⟨q, hq, (q.id_yielding identity).symm.trans_ne hne, rfl⟩
    · rintro ⟨q, hq, hne, rfl⟩
      have heq : q ≠ r := fun heq => hne (congrArg HostRow.id heq)
      exact ⟨List.mem_map.mpr ⟨q, hq, if_neg heq⟩, (q.id_yielding identity).trans_ne hne⟩
  | created _ _ _ _ tells =>
    have hid : host.id = db.lastHost + 1 := tells.id
    rw [hdb.created_eq, hid]
    constructor
    · rintro ⟨hs, hne⟩
      rcases List.mem_append.mp hs with hs | hs
      · obtain ⟨q, hq, rfl⟩ := List.mem_map.mp hs
        exact ⟨q, hq, (q.id_yielding identity).symm.trans_ne hne, rfl⟩
      · rw [List.mem_singleton.mp hs] at hne
        exact absurd rfl hne
    · rintro ⟨q, hq, hne, rfl⟩
      exact ⟨List.mem_append_left _ (List.mem_map_of_mem hq),
        (q.id_yielding identity).trans_ne hne⟩

/-- A host that an identity does not describe is left as it is. -/
theorem Upserted.mem_of_not_describedBy {now : String}
    (h : Upserted db identity now answer after) (hdb : db.HostsSound) {r : HostRow}
    (mem : r ∈ db.hosts) (other : ¬r.DescribedBy identity (Text.trim identity.hostname)) :
    r ∈ after.hosts := by
  have hyield := HostRow.yielding_of_not_describedBy other
  cases h with
  | unnamed | own | full => exact mem
  | @merged s _ _ _ hs _ found =>
    obtain ⟨s', about, hid⟩ := Database.exists_isAbout found
    obtain rfl := hdb.distinct.eq_of_id about.mem hs hid
    have hne : r ≠ s' := fun heq => other (heq ▸ about.describedBy)
    rw [Database.merged_eq hdb.distinct now hs]
    exact List.mem_map.mpr ⟨r, mem, by rw [if_neg hne, hyield]⟩
  | created =>
    rw [hdb.created_eq]
    exact List.mem_append_left _ (List.mem_map.mpr ⟨r, mem, hyield⟩)

end Merging

/-- After every run an identity is refused as a conflict exactly if it has the local host's name or
one of its addresses. Otherwise it is merged into the host that it is about, or into a new one if
there is a number left for that; the other peers give up its addresses, each in its own column, and
nothing else is changed. -/
theorem upsertHost_merges (writes : List Write) (now : Time.Moment) {identity : Identity}
    (named : Text.trim identity.hostname ≠ "") :
    let store := ({} : Store).after writes
    let db := store.database
    let name := Text.trim identity.hostname
    ((∃ reason, (store.upsertHost now.1 identity).1 = .error (.conflict reason)) ↔
      ∃ self ∈ db.hosts, self.isSelf = true ∧ self.DescribedBy identity name) ∧
    ((∀ self ∈ db.hosts, self.isSelf = true → ¬self.DescribedBy identity name) →
      (∀ r, db.IsAbout identity name r → ∃ host, r.Tells host ∧
        store.upsertHost now.1 identity =
          (.ok (host.merge identity name now.1),
            { store with
              database :=
                { db with
                  hosts := db.hosts.map fun s =>
                    if s = r then r.merge identity name (Time.storedText now.1)
                    else s.yielding identity } })) ∧
      ((∀ r, ¬db.IsAbout identity name r) → db.lastHost < Cell.highest →
        store.upsertHost now.1 identity =
          (.ok ((Host.unknown (db.lastHost + 1) now.1).merge identity name now.1),
            { store with
              database :=
                { db with
                  hosts := db.hosts.map (HostRow.yielding identity) ++
                    [HostRow.ofPeer identity name (Time.storedText now.1) (db.lastHost + 1)]
                  lastHost := db.lastHost + 1 } })) ∧
      ((∀ r, ¬db.IsAbout identity name r) → db.lastHost = Cell.highest →
        store.upsertHost now.1 identity = (.error Statements.full, store))) := by
  intro store db name
  have hdb : db.HostsSound := hostsSound_after hostsSound_empty writes
  obtain ⟨answer, after, hrun, h⟩ := upsertHost_upserted hdb now identity
  rw [hrun]
  refine ⟨h.conflict_iff named, fun free => ⟨fun r about => ?_, fun nobody room => ?_,
    fun nobody last => ?_⟩⟩
  · obtain ⟨host, tells⟩ := (hdb.rows r about.mem).read
    obtain ⟨hanswer, hafter⟩ := h.of_isAbout hdb named free about tells
    exact ⟨host, tells, by rw [hanswer, hafter]⟩
  · obtain ⟨-, hanswer, hafter⟩ | ⟨last, -⟩ := h.of_not_isAbout hdb named free nobody
    · rw [hanswer, hafter]
    · exact absurd last (Int.ne_of_lt room)
  · obtain ⟨room, -⟩ | ⟨-, hanswer, hafter⟩ := h.of_not_isAbout hdb named free nobody
    · exact absurd last (Int.ne_of_lt room)
    · rw [hanswer, hafter]

/-- The local host and three peers. -/
def fleet : List Write :=
  [.upsertHost Time.epoch { hostname := "a", discoveredAddress := "10.0.0.9" },
    .upsertHost Time.epoch { hostname := "b", internalAddress := "10.0.0.2" },
    .upsertHost Time.epoch { hostname := "c", publicAddress := "1.2.3.4" },
    .registerStart Time.epoch { hostname := "d", internalAddress := "10.0.0.1" }]

/-- The name of one peer, with the addresses of two others. -/
def mixedIdentity : Identity :=
  { hostname := " a ", internalAddress := "10.0.0.2", publicAddress := "1.2.3.4"
    servicePort := 5500 }

def mixedOnce : Except Fault Host × Store :=
  (({} : Store).after fleet).upsertHost Time.epoch.1 mixedIdentity

/-- The name settles which host it is, and the other peers lose their addresses to it. -/
theorem upsertHost_merges_by_name :
    Text.trim mixedIdentity.hostname ≠ "" ∧
      (∀ self ∈ (({} : Store).after fleet).database.hosts, self.isSelf = true →
        ¬self.DescribedBy mixedIdentity (Text.trim mixedIdentity.hostname)) ∧
      ∃ r, (({} : Store).after fleet).database.IsAbout mixedIdentity "a" r ∧ r.id = 1 ∧
        ∃ host, r.Tells host ∧ mixedOnce.1 = .ok (host.merge mixedIdentity "a" Time.epoch.1) ∧
          ∀ s ∈ mixedOnce.2.database.hosts, s.isPeer = true → s.id ≠ 1 →
            s.internalAddress = "" ∧ s.publicAddress = "" := by
  have named : Text.trim mixedIdentity.hostname ≠ "" := by decide
  have free : ∀ self ∈ (({} : Store).after fleet).database.hosts, self.isSelf = true →
      ¬self.DescribedBy mixedIdentity (Text.trim mixedIdentity.hostname) := by
    unfold HostRow.DescribedBy
    decide +kernel
  have hfirst : ∃ r ∈ (({} : Store).after fleet).database.hosts, r.isPeer = true ∧
      r.hostname = Text.trim mixedIdentity.hostname ∧ r.id = 1 := by decide +kernel
  obtain ⟨r, mem, isPeer, hname, hid⟩ := hfirst
  have about : (({} : Store).after fleet).database.IsAbout mixedIdentity "a" r :=
    .named ⟨mem, isPeer, hname, named⟩
  obtain ⟨-, hmerges⟩ := upsertHost_merges fleet Time.epoch named
  obtain ⟨host, tells, hrun⟩ := (hmerges free).1 r about
  exact ⟨named, free, r, about, hid, host, tells, congrArg Prod.fst hrun, by decide +kernel⟩

/-- Once all numbers have been given out, no row is made for an identity that is about no host. -/
theorem upsertHost_refused_to_exhausted :
    Text.trim ({ hostname := "b", internalAddress := "10.0.0.2" } : Identity).hostname ≠ "" ∧
      (∀ self ∈ (({} : Store).after (comings 9223372036854775807)).database.hosts,
        self.isSelf = true → ¬self.DescribedBy
          { hostname := "b", internalAddress := "10.0.0.2" } "b") ∧
      (∀ r, ¬(({} : Store).after (comings 9223372036854775807)).database.IsAbout
        { hostname := "b", internalAddress := "10.0.0.2" } "b" r) ∧
      (({} : Store).after (comings 9223372036854775807)).upsertHost Time.epoch.1
          { hostname := "b", internalAddress := "10.0.0.2" } =
        (.error Statements.full, ({} : Store).after (comings 9223372036854775807)) := by
  have hdb := hostsSound_after hostsSound_empty (comings 9223372036854775807)
  rw [after_comings (by decide)] at hdb ⊢
  have nobody : ∀ r, ¬(forsaken 9223372036854775807).database.IsAbout
      { hostname := "b", internalAddress := "10.0.0.2" } "b" r := fun r about => nomatch about.mem
  obtain ⟨answer, after, hrun, h⟩ :=
    upsertHost_upserted hdb Time.epoch { hostname := "b", internalAddress := "10.0.0.2" }
  refine ⟨by decide, fun self mem => (nomatch mem), nobody, ?_⟩
  obtain ⟨room, -⟩ | ⟨-, rfl, rfl⟩ :=
    h.of_not_isAbout hdb (by decide) (fun self mem => (nomatch mem)) nobody
  · exact absurd room (by decide)
  · exact hrun

/-! ### The same identity once more -/

/-- The row holds all that an identity says. -/
structure HostRow.Carries (r : HostRow) (identity : Identity) : Prop where
  hostname : r.hostname = Text.trim identity.hostname
  internal : identity.internalAddress ≠ "" → r.internalAddress = identity.internalAddress
  external : identity.publicAddress ≠ "" → r.publicAddress = identity.publicAddress
  discovered : identity.discoveredAddress ≠ "" → r.discoveredAddress = identity.discoveredAddress
  servicePort : identity.servicePort ≠ 0 → r.servicePort = .whole identity.servicePort.toNat

/-- The tables with the host of a number seen at a time. -/
def Database.sighted (db : Database) (id : Int) (now : String) : Database :=
  { db with hosts := db.hosts.map fun r => if r.id = id then { r with lastSeen := now } else r }

section Again

variable {db after : Database} {identity : Identity} {answer : Except Fault Host} {host : Host}

namespace HostRow

theorem carries_merge (r : HostRow) (identity : Identity) (now : String) :
    (r.merge identity (Text.trim identity.hostname) now).Carries identity :=
  ⟨rfl, fun hne => if_neg hne, fun hne => if_neg hne, fun hne => if_neg hne,
    fun hne => if_neg hne⟩

theorem carries_ofPeer (identity : Identity) (now : String) (id : Int) :
    (ofPeer identity (Text.trim identity.hostname) now id).Carries identity :=
  ⟨rfl, fun _ => rfl, fun _ => rfl, fun _ => rfl, fun _ => rfl⟩

theorem replaced_eq_of {old new : String} (h : new ≠ "" → old = new) : replaced old new = old := by
  unfold replaced
  split
  · rfl
  · exact (h ‹_›).symm

variable {r : HostRow}

/-- To merge what a row holds already only renews the time. -/
theorem Carries.merge_eq (h : r.Carries identity) (now : String) :
    r.merge identity (Text.trim identity.hostname) now = { r with lastSeen := now } := by
  have hport : (if identity.servicePort = 0 then r.servicePort
      else .whole identity.servicePort.toNat) = r.servicePort := by
    split
    · rfl
    · exact (h.servicePort ‹_›).symm
  rw [merge, replaced_eq_of h.internal, replaced_eq_of h.external, replaced_eq_of h.discovered,
    hport, ← h.hostname]

/-- A host reads the same when it has been seen again, but for the time. -/
theorem Tells.sighted (h : r.Tells host) (now : Time.Moment) :
    ({ r with lastSeen := Time.storedText now.1 } : HostRow).Tells
      { host with lastSeen := now.1 } :=
  ⟨h.id, h.hostname, h.internal, h.external, h.discovered, h.servicePort, h.firstSeen,
    Time.parseTime?_storedText now.2, h.isLocal⟩

/-- Beside a row that holds all of it an identity describes no other host. -/
theorem Carries.not_describedBy (hdb : Distinct db.hosts) (mem : r ∈ db.hosts)
    (h : r.Carries identity) (named : Text.trim identity.hostname ≠ "") {s : HostRow}
    (hs : s ∈ db.hosts) (hne : s ≠ r) :
    ¬s.DescribedBy identity (Text.trim identity.hostname) := by
  have hap := (hdb.apart mem hs).resolve_left (Ne.symm hne)
  refine not_describedBy_iff.mpr ⟨fun hname => ?_, fun hin haddress => ?_, fun hout haddress => ?_⟩
  · exact hap.hostname (h.hostname.symm ▸ named) (h.hostname.trans hname.symm)
  · exact hap.internal (h.internal hin ▸ hin) ((h.internal hin).trans haddress.symm)
  · exact hap.external (h.external hout ▸ hout) ((h.external hout).trans haddress.symm)

end HostRow

/-- What has been recorded stands in the row that is told. -/
theorem Upserted.carries {now : String} (h : Upserted db identity now (.ok host) after)
    (hdb : db.HostsSound) :
    Text.trim identity.hostname ≠ "" ∧ ∃ r ∈ after.hosts, r.isPeer = true ∧ r.Carries identity ∧
      r.Tells host ∧ r.lastSeen = now := by
  cases h with
  | @merged r _ named _ mem isPeer _ tells =>
    refine ⟨named, r.merge identity (Text.trim identity.hostname) now, ?_, isPeer,
      r.carries_merge identity now, tells, rfl⟩
    rw [Database.merged_eq hdb.distinct now mem]
    exact List.mem_map.mpr ⟨r, mem, if_pos rfl⟩
  | created named _ _ _ tells =>
    exact ⟨named, _, List.mem_append_right _ (List.mem_singleton_self _), rfl,
      HostRow.carries_ofPeer identity now _, tells, rfl⟩

/-- To record what a peer's row holds already finds that row, takes nothing from others, and renews
the time. -/
theorem Upserted.of_carries {now : Time.Moment}
    (h : Upserted db identity (Time.storedText now.1) answer after) (hdb : db.HostsSound)
    (named : Text.trim identity.hostname ≠ "") {r : HostRow} (mem : r ∈ db.hosts)
    (isPeer : r.isPeer = true) (carries : r.Carries identity) (tells : r.Tells host) :
    answer = .ok { host with lastSeen := now.1 } ∧
      after = db.sighted r.id (Time.storedText now.1) := by
  have hothers := fun s (hs : s ∈ db.hosts) (hne : s ≠ r) =>
    carries.not_describedBy hdb.distinct mem named hs hne
  have free : ∀ s ∈ db.hosts, s.isSelf = true →
      ¬s.DescribedBy identity (Text.trim identity.hostname) := by
    intro s hs hself
    refine hothers s hs ?_
    rintro rfl
    rw [HostRow.not_isSelf_of_isPeer isPeer] at hself
    cases hself
  obtain ⟨hanswer, hafter⟩ := h.of_isAbout hdb named free
    (.named ⟨mem, isPeer, carries.hostname, named⟩) tells
  constructor
  · have hrow := carries.merge_eq (Time.storedText now.1) ▸ tells.merge identity _ now
    rw [hanswer, hrow.unique (tells.sighted now)]
  · rw [hafter, Database.sighted]
    congr 1
    refine List.map_congr_left fun s hs => ?_
    by_cases heq : s = r
    · rw [if_pos heq, if_pos (by rw [heq]), carries.merge_eq, heq]
    · rw [if_neg heq, if_neg fun hid => heq (hdb.distinct.eq_of_id hs mem hid),
        HostRow.yielding_of_not_describedBy (hothers s hs heq)]

/-- A refusal leaves the tables as they are, and they refuse the identity at any other time. -/
theorem Upserted.of_refused {now now' : String} {fault : Fault} {after' : Database}
    (h : Upserted db identity now (.error fault) after)
    (h' : Upserted db identity now' answer after') :
    after = db ∧ answer = .error fault ∧ after' = db := by
  cases h with
  | unnamed blank =>
    cases h' with
    | unnamed => exact ⟨rfl, rfl, rfl⟩
    | own named | merged named | created named | full named => exact absurd blank named
  | own named mem isSelf described =>
    cases h' with
    | unnamed blank => exact absurd blank named
    | own => exact ⟨rfl, rfl, rfl⟩
    | merged _ free | created _ free | full _ free => exact absurd described (free _ mem isSelf)
  | full named free none last =>
    cases h' with
    | unnamed blank => exact absurd blank named
    | own _ mem isSelf described => exact absurd described (free _ mem isSelf)
    | merged _ _ _ _ found =>
      rw [none] at found
      cases found
    | created _ _ _ room => exact absurd last (Int.ne_of_lt room)
    | full => exact ⟨rfl, rfl, rfl⟩

end Again

/-- After every run, an identity that is recorded is recorded once more with the same host, and only
the time at which that host was last seen is another; one that is refused is refused once more for
the same reason, and nothing is changed either time. -/
theorem upsertHost_idempotent (writes : List Write) {now later : Time.Moment}
    (hlater : now.1.Before later.1) (identity : Identity) :
    let store := ({} : Store).after writes
    let once := store.upsertHost now.1 identity
    (∀ host, once.1 = .ok host →
      host.lastSeen.Before later.1 ∧
        once.2.upsertHost later.1 identity =
          (.ok { host with lastSeen := later.1 },
            { once.2 with
              database := once.2.database.sighted host.id (Time.storedText later.1) })) ∧
    ∀ fault, once.1 = .error fault →
      once.2 = store ∧ once.2.upsertHost later.1 identity = (.error fault, once.2) := by
  intro store once
  have hdb : store.database.HostsSound := hostsSound_after hostsSound_empty writes
  obtain ⟨answer, after, hrun, h⟩ := upsertHost_upserted hdb now identity
  let next : Store := { store with database := after }
  have hdb' : next.database.HostsSound := h.sound hdb (isStoredTime_storedText now)
  obtain ⟨answer', after', hrun', h'⟩ := upsertHost_upserted hdb' later identity
  have honce : once = (answer, next) := hrun
  rw [honce]
  constructor
  · rintro host rfl
    obtain ⟨named, r, mem, isPeer, carries, tells, hseen⟩ := h.carries hdb
    have hlast := tells.lastSeen
    rw [hseen, Time.parseTime?_storedText now.2] at hlast
    obtain ⟨rfl, rfl⟩ := h'.of_carries hdb' named mem isPeer carries tells
    rw [hrun', tells.id]
    exact ⟨Option.some.inj hlast ▸ hlater, rfl⟩
  · rintro fault rfl
    have hsame : after = store.database := by cases h <;> rfl
    subst hsame
    obtain ⟨-, rfl, rfl⟩ := h.of_refused h'
    exact ⟨rfl, hrun'⟩

theorem valid_nextSecond : (⟨1, 0⟩ : Time.Instant).Valid := by decide

/-- One second after the epoch. -/
def nextSecond : Time.Moment := ⟨⟨1, 0⟩, valid_nextSecond⟩

/-- The peer that has taken the addresses of two others is found again a second later. -/
theorem upsertHost_idempotent_of_fleet :
    Time.epoch.1.Before nextSecond.1 ∧ ∃ host, mixedOnce.1 = .ok host ∧ host.id = 1 ∧
      host.lastSeen.Before nextSecond.1 ∧
      mixedOnce.2.upsertHost nextSecond.1 mixedIdentity =
        (.ok { host with lastSeen := nextSecond.1 },
          { mixedOnce.2 with
            database :=
              mixedOnce.2.database.sighted host.id (Time.storedText nextSecond.1) }) := by
  have hlater : Time.epoch.1.Before nextSecond.1 := by decide
  have hfirst : mixedOnce.1.toOption.map (·.id) = some 1 := by decide +kernel
  obtain ⟨host, hfound, hid⟩ := Option.map_eq_some_iff.mp hfirst
  have hok : mixedOnce.1 = .ok host := toOption_eq_some_iff.mp hfound
  obtain ⟨hseen, htwice⟩ := (upsertHost_idempotent fleet hlater mixedIdentity).1 host hok
  exact ⟨hlater, host, hok, hid, hseen, htwice⟩

end Store
end PeerHealth
