import PeerHealth.Proofs.Store.HostTable
import PeerHealth.Proofs.Store.Rows
import PeerHealth.Proofs.Text.Trim

/-! Host tables in which every row reads. -/

namespace PeerHealth.Store

/-- A text that an instant is stored as. -/
def IsStoredTime (s : String) : Prop := ∃ t : Time.Instant, t.Valid ∧ s = Time.storedText t

theorem IsStoredTime.parse {s : String} (h : IsStoredTime s) : ∃ t, Time.parseTime? s = some t := by
  obtain ⟨t, ht, rfl⟩ := h
  exact ⟨t, Time.parseTime?_storedText ht⟩

/-- What the columns for the local host hold. -/
structure HostRow.Started (r : HostRow) : Prop where
  restarts : ∃ n : Nat, n < Number.limit63 ∧ r.restarts = .whole n
  firstStart : ∃ s, r.firstStart = some s ∧ IsStoredTime s
  lastStart : ∃ s, r.lastStart = some s ∧ IsStoredTime s

/-- A row that reads as a peer or as the local host, under a trimmed name. -/
structure HostRow.Sound (r : HostRow) : Prop where
  named : r.hostname ≠ ""
  trimmed : Text.trim r.hostname = r.hostname
  servicePort : ∃ p : UInt16, r.servicePort = .whole p.toNat
  firstSeen : IsStoredTime r.firstSeen
  lastSeen : IsStoredTime r.lastSeen
  kind : r.isLocal = .whole 0 ∨ r.isLocal = .whole 1
  started : r.isSelf = true → r.Started

namespace HostRow

@[simp] theorem isSelf_iff (r : HostRow) : r.isSelf = true ↔ r.isLocal = .whole 1 := by
  simp [isSelf]

@[simp] theorem isPeer_iff (r : HostRow) : r.isPeer = true ↔ r.isLocal = .whole 0 := by
  simp [isPeer]

variable {r : HostRow}

theorem Sound.isPeer_of_not_isSelf (h : r.Sound) (hs : ¬r.isSelf = true) : r.isPeer = true :=
  r.isPeer_iff.mpr (h.kind.resolve_right fun h1 => hs (r.isSelf_iff.mpr h1))

theorem not_isSelf_of_isPeer (h : r.isPeer = true) : r.isSelf = false := by
  rw [isPeer_iff] at h
  simp [isSelf, h]

theorem not_isPeer_of_isSelf (h : r.isSelf = true) : r.isPeer = false := by
  rw [isSelf_iff] at h
  simp [isPeer, h]

theorem Sound.read (h : r.Sound) : ∃ host, r.Tells host := by
  obtain ⟨p, hp⟩ := h.servicePort
  obtain ⟨first, hfirst⟩ := h.firstSeen.parse
  obtain ⟨last, hlast⟩ := h.lastSeen.parse
  rcases h.kind with hk | hk
  · exact ⟨⟨r.id, _, _, _, _, p, first, last, false⟩, rfl, rfl, rfl, rfl, rfl, hp, hfirst, hlast,
      0, hk, rfl⟩
  · exact ⟨⟨r.id, _, _, _, _, p, first, last, true⟩, rfl, rfl, rfl, rfl, rfl, hp, hfirst, hlast,
      1, hk, rfl⟩

theorem Sound.readSelf (h : r.Sound) (hs : r.isSelf = true) : ∃ s, r.readSelf = .ok s := by
  obtain ⟨host, hhost⟩ := h.read
  obtain ⟨⟨n, -, hn⟩, ⟨first, hfirst, hf⟩, ⟨last, hlast, hl⟩⟩ := h.started hs
  obtain ⟨t, ht⟩ := hf.parse
  obtain ⟨u, hu⟩ := hl.parse
  exact ⟨⟨host, n, t, u⟩, readSelf_eq_ok_iff.mpr ⟨hhost, hn, ⟨_, hfirst, ht⟩, ⟨_, hlast, hu⟩⟩⟩

theorem Sound.setAddresses (h : r.Sound) (i e : String) :
    { r with internalAddress := i, publicAddress := e }.Sound :=
  ⟨h.named, h.trimmed, h.servicePort, h.firstSeen, h.lastSeen, h.kind,
    fun hs => ⟨(h.started hs).restarts, (h.started hs).firstStart, (h.started hs).lastStart⟩⟩

theorem Sound.release (h : r.Sound) (identity : Identity) (keep : Int) :
    (r.release identity keep).Sound := by
  obtain ⟨i, e, -, -, heq⟩ := release_eq identity keep r
  rw [heq]
  exact h.setAddresses i e

end HostRow

/-- A host table in which every row is sound, no two clash, and no number is above the last one
given out. -/
structure Database.HostsSound (db : Database) : Prop where
  rows : ∀ r ∈ db.hosts, r.Sound
  distinct : Distinct db.hosts
  numbered : ∀ r ∈ db.hosts, 1 ≤ r.id ∧ r.id ≤ db.lastHost
  lastHost : 0 ≤ db.lastHost ∧ db.lastHost ≤ Cell.highest

/-- The identity speaks of the host in the row: by its name or by one of its addresses. -/
def HostRow.DescribedBy (r : HostRow) (identity : Identity) (hostname : String) : Prop :=
  r.hostname = hostname ∨
    (identity.internalAddress ≠ "" ∧ r.internalAddress = identity.internalAddress) ∨
    (identity.publicAddress ≠ "" ∧ r.publicAddress = identity.publicAddress)

theorem HostRow.not_describedBy_iff {r : HostRow} {identity : Identity} {hostname : String} :
    ¬r.DescribedBy identity hostname ↔ r.hostname ≠ hostname ∧
      (identity.internalAddress ≠ "" → r.internalAddress ≠ identity.internalAddress) ∧
      (identity.publicAddress ≠ "" → r.publicAddress ≠ identity.publicAddress) := by
  simp only [DescribedBy, not_or, not_and, ne_eq]

theorem describes_iff {r : HostRow} {self : Host} (h : r.Tells self) (identity : Identity)
    (hostname : String) :
    describes identity hostname self = true ↔ r.DescribedBy identity hostname := by
  simp only [describes, HostRow.DescribedBy, h.hostname, h.internal, h.external, Bool.or_eq_true,
    Bool.and_eq_true, decide_eq_true_eq, or_assoc]

/-- Row `r` is that of a peer with a non-empty text in a column. -/
structure Database.PeerWith (db : Database) (column : HostRow → String) (text : String)
    (r : HostRow) : Prop where
  mem : r ∈ db.hosts
  isPeer : r.isPeer = true
  holds : column r = text
  nonempty : text ≠ ""

namespace Database

variable {db : Database}

/-- Of all rows one at most is the local host's. -/
theorem HostsSound.localHost? (h : db.HostsSound) :
    (db.localHost? = .ok none ∧ ∀ r ∈ db.hosts, r.isPeer = true) ∨
      ∃ r ∈ db.hosts, ∃ self, r.isSelf = true ∧ r.Tells self ∧ db.localHost? = .ok (some self) ∧
        ∀ s ∈ db.hosts, s ≠ r → s.isPeer = true := by
  cases hf : db.hosts.find? HostRow.isSelf with
  | none =>
    refine .inl ⟨by rw [Database.localHost?, hf], fun r hr => ?_⟩
    exact (h.rows r hr).isPeer_of_not_isSelf (List.find?_eq_none.mp hf r hr)
  | some r =>
    have hr := List.mem_of_find?_eq_some hf
    have hs : r.isSelf = true := List.find?_some hf
    obtain ⟨self, hself⟩ := (h.rows r hr).read
    refine .inr ⟨r, hr, self, hs, hself, ?_, fun s hmem hne => ?_⟩
    · rw [Database.localHost?, hf]
      show ofTable (r.read.map some) = _
      rw [HostRow.read_eq_ok_iff.mpr hself]
      rfl
    · refine (h.rows s hmem).isPeer_of_not_isSelf ?_
      intro hs'
      have := ((h.distinct.apart hr hmem).resolve_left (Ne.symm hne)).self hs
      rw [this] at hs'
      cases hs'

theorem exists_peerWith {column : HostRow → String} {text : String} {id : Int}
    (h : db.peerId? column text = some id) : ∃ r, db.PeerWith column text r ∧ r.id = id := by
  unfold peerId? at h
  split at h
  · cases h
  · rename_i hne
    obtain ⟨r, hr, rfl⟩ := Option.map_eq_some_iff.mp h
    have hp := List.find?_some hr
    simp only [Bool.and_eq_true, decide_eq_true_eq] at hp
    exact ⟨r, ⟨List.mem_of_find?_eq_some hr, hp.2, hp.1, hne⟩, rfl⟩

theorem peerId?_eq_none_iff {column : HostRow → String} {text : String} :
    db.peerId? column text = none ↔ ∀ r, ¬db.PeerWith column text r := by
  constructor
  · rintro h r ⟨hr, hp, heq, hne⟩
    rw [peerId?, if_neg hne, Option.map_eq_none_iff, List.find?_eq_none] at h
    exact h r hr (by simp [heq, hp])
  · intro h
    cases hfound : db.peerId? column text with
    | none => rfl
    | some id =>
      obtain ⟨r, hr, -⟩ := exists_peerWith hfound
      exact absurd hr (h r)

theorem hostWhere_eq_notFound {p : HostRow → Bool} (h : ∀ r ∈ db.hosts, p r = false) :
    db.hostWhere p = .error .notFound := by
  have hf : db.hosts.find? p = none := List.find?_eq_none.mpr fun r hr => by simp [h r hr]
  rw [hostWhere, hf]

/-- The only row that is looked for is found. -/
theorem hostWhere_eq_ok {p : HostRow → Bool} {r : HostRow} {host : Host} (hr : r ∈ db.hosts)
    (hp : p r = true) (only : ∀ s ∈ db.hosts, p s = true → s = r) (h : r.Tells host) :
    db.hostWhere p = .ok host := by
  unfold hostWhere
  cases hf : db.hosts.find? p with
  | none => exact absurd hp (List.find?_eq_none.mp hf r hr)
  | some s =>
    rw [only s (List.mem_of_find?_eq_some hf) (List.find?_some hf)]
    exact ofTable_eq_ok_iff.mpr (HostRow.read_eq_ok_iff.mpr h)

theorem hostById_eq_notFound {id : Int} (h : ∀ r ∈ db.hosts, r.id ≠ id) :
    db.hostById id = .error .notFound :=
  hostWhere_eq_notFound fun r hr => decide_eq_false (h r hr)

theorem hostById_eq_ok {r : HostRow} {host : Host} (hd : Distinct db.hosts)
    (hr : r ∈ db.hosts) (h : r.Tells host) : db.hostById r.id = .ok host :=
  hostWhere_eq_ok hr (decide_eq_true rfl)
    (fun _ hs hid => hd.eq_of_id hs hr (of_decide_eq_true hid)) h

theorem selfRecord_eq {r : HostRow} (hd : Distinct db.hosts) (hr : r ∈ db.hosts)
    (hs : r.isSelf = true) : db.selfRecord = ofTable r.readSelf := by
  unfold selfRecord
  cases hf : db.hosts.find? HostRow.isSelf with
  | none => exact absurd hs (List.find?_eq_none.mp hf r hr)
  | some s =>
    have hs' : s.isSelf = true := List.find?_some hf
    rcases hd.apart (List.mem_of_find?_eq_some hf) hr with rfl | hap
    · rfl
    · rw [hap.self hs'] at hs
      cases hs

theorem mem_without {r : HostRow} {id : Int} :
    r ∈ (db.without id).hosts ↔ r ∈ db.hosts ∧ r.id ≠ id := by
  simp [without]

theorem HostsSound.without (h : db.HostsSound) (id : Int) : (db.without id).HostsSound :=
  ⟨fun r hr => h.rows r (mem_without.mp hr).1, h.distinct.filter _,
    fun r hr => h.numbered r (mem_without.mp hr).1, h.lastHost⟩

/-- The tables stay sound when others lose addresses to a row that is changed. -/
theorem HostsSound.change (hdb : db.HostsSound) {r : HostRow} (mem : r ∈ db.hosts)
    {identity : Identity} {f : HostRow → HostRow} (hid : (f r).id = r.id) (hsound : (f r).Sound)
    (hdist : Distinct ((db.hosts.map (HostRow.release identity r.id)).map fun s : HostRow =>
      if s.id = r.id then f s else s)) :
    { db with hosts := (db.hosts.map (HostRow.release identity r.id)).map fun s : HostRow =>
        if s.id = r.id then f s else s }.HostsSound := by
  have hrow : ∀ s ∈ (db.hosts.map (HostRow.release identity r.id)).map fun s : HostRow =>
      if s.id = r.id then f s else s,
      s = f r ∨ ∃ s0 ∈ db.hosts, s = s0.release identity r.id := by
    intro s hs
    obtain ⟨s1, hs1, rfl⟩ := List.mem_map.mp hs
    obtain ⟨s0, hs0, rfl⟩ := List.mem_map.mp hs1
    by_cases h : (s0.release identity r.id).id = r.id
    · rw [if_pos h]
      rw [(s0.stripped_release identity r.id).id] at h
      rw [hdb.distinct.eq_of_id hs0 mem h,
        HostRow.release_of_not_isOther identity (by simp [HostRow.isOther])]
      exact .inl rfl
    · rw [if_neg h]
      exact .inr ⟨s0, hs0, rfl⟩
  refine ⟨fun s hs => ?_, hdist, fun s hs => ?_, hdb.lastHost⟩
  · rcases hrow s hs with rfl | ⟨s0, hs0, rfl⟩
    · exact hsound
    · exact (hdb.rows s0 hs0).release identity r.id
  · rcases hrow s hs with rfl | ⟨s0, hs0, rfl⟩
    · rw [hid]
      exact hdb.numbered r mem
    · rw [(s0.stripped_release identity r.id).id]
      exact hdb.numbered s0 hs0

/-- The tables stay sound when others lose addresses to a row that is added. -/
theorem HostsSound.add (hdb : db.HostsSound) {row : HostRow} {identity : Identity}
    (hsound : row.Sound) (hid : row.id = db.lastHost + 1) (room : db.lastHost < Cell.highest)
    (hdist : Distinct (db.hosts.map (HostRow.release identity 0) ++ [row])) :
    { db with
      hosts := db.hosts.map (HostRow.release identity 0) ++ [row]
      lastHost := db.lastHost + 1 }.HostsSound := by
  have hlast := hdb.lastHost
  refine ⟨fun s hs => ?_, hdist, fun s hs => ?_, ?_⟩
  · rcases List.mem_append.mp hs with hs | hs
    · obtain ⟨s0, hs0, rfl⟩ := List.mem_map.mp hs
      exact (hdb.rows s0 hs0).release identity 0
    · rw [List.mem_singleton.mp hs]
      exact hsound
  · show 1 ≤ s.id ∧ s.id ≤ db.lastHost + 1
    rcases List.mem_append.mp hs with hs | hs
    · obtain ⟨s0, hs0, rfl⟩ := List.mem_map.mp hs
      have hnum := hdb.numbered s0 hs0
      rw [(s0.stripped_release identity 0).id]
      omega
    · rw [List.mem_singleton.mp hs]
      omega
  · show 0 ≤ db.lastHost + 1 ∧ db.lastHost + 1 ≤ Cell.highest
    omega

end Database

namespace Statements

variable {identity : Identity}

theorem exec_hostnameOf_blank (h : Text.trim identity.hostname = "") (db : Database) :
    exec (ask fun _ => hostnameOf identity) db = (.error (.invalid "empty hostname"), db) := by
  rw [exec_ask, hostnameOf, if_pos h]

theorem exec_hostnameOf (h : Text.trim identity.hostname ≠ "") (db : Database) :
    exec (ask fun _ => hostnameOf identity) db = (.ok (Text.trim identity.hostname), db) := by
  rw [exec_ask, hostnameOf, if_neg h]

end Statements

end PeerHealth.Store
