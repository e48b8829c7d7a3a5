import Mathlib.Logic.Equiv.Basic
import PeerHealth.Proofs.Store.Merging

/-! Two identities of which neither speaks of the other's host. Main statements: what it comes to
that one of them is recorded depends on the rows that it describes, and the other one leaves these
as they are; and in whichever order the two are recorded, the answers and the store are the same but
for the numbers of new hosts and the times. -/

namespace PeerHealth

/-- Two identities with different names and no address in common. -/
structure Identity.Apart (i j : Identity) : Prop where
  hostname : Text.trim i.hostname ≠ Text.trim j.hostname
  internal : i.internalAddress ≠ "" → i.internalAddress ≠ j.internalAddress
  external : i.publicAddress ≠ "" → i.publicAddress ≠ j.publicAddress

theorem Identity.Apart.symm {i j : Identity} (h : i.Apart j) : j.Apart i :=
  ⟨h.hostname.symm, fun hne heq => h.internal (heq ▸ hne) heq.symm,
    fun hne heq => h.external (heq ▸ hne) heq.symm⟩

/-- Host `h` is host `g` under the number that `σ` gives it, last seen at any time, and first seen
at the same time unless the number is above `last`. -/
structure Host.Alike (σ : Equiv.Perm Int) (last : Int) (g h : Host) : Prop where
  same : { g with id := σ g.id, firstSeen := h.firstSeen, lastSeen := h.lastSeen } = h
  firstSeen : g.id ≤ last → h.firstSeen = g.firstSeen

namespace Store

/-- Two answers that are refused alike or tell the same host. -/
inductive AnswersAlike (σ : Equiv.Perm Int) (last : Int) :
    Except Fault Host → Except Fault Host → Prop
  | refused (fault : Fault) : AnswersAlike σ last (.error fault) (.error fault)
  | told {g h : Host} (alike : g.Alike σ last h) : AnswersAlike σ last (.ok g) (.ok h)

theorem AnswersAlike.id {σ : Equiv.Perm Int} {last m n : Int} {x y : Except Fault Host}
    (h : AnswersAlike σ last x y) (hx : x.toOption.map (·.id) = some m)
    (hy : y.toOption.map (·.id) = some n) : σ m = n := by
  cases h with
  | refused => cases hx
  | told alike =>
    rw [← Option.some.inj hx, ← Option.some.inj hy, ← alike.same]

/-- Row `s` is row `r` under the number that `σ` gives it, first seen at the same time unless the
number is above `last`, and last seen at the same time unless the row has one of the names. -/
structure HostRow.Alike (σ : Equiv.Perm Int) (last : Int) (names : List String) (r s : HostRow) :
    Prop where
  same : { r with id := σ r.id, firstSeen := s.firstSeen, lastSeen := s.lastSeen } = s
  firstSeen : r.id ≤ last → s.firstSeen = r.firstSeen
  lastSeen : r.hostname ∉ names → s.lastSeen = r.lastSeen

/-- Two stores with alike hosts, in any order, that are otherwise equal. -/
structure Alike (σ : Equiv.Perm Int) (last : Int) (names : List String) (s s' : Store) :
    Prop where
  hosts : ∃ rows, List.Forall₂ (HostRow.Alike σ last names) s.database.hosts rows ∧
    rows.Perm s'.database.hosts
  rest : { s' with database := { s'.database with hosts := s.database.hosts } } = s

/-- Of the peers an identity describes none but the one of its name. -/
def Database.OnlyNamesake (db : Database) (identity : Identity) : Prop :=
  ∀ r ∈ db.hosts, r.isPeer = true → r.DescribedBy identity (Text.trim identity.hostname) →
    r.hostname = Text.trim identity.hostname

/-- Both identities need a row of their own, and there is one number left. -/
structure Database.Contended (db : Database) (i j : Identity) : Prop where
  named : Text.trim i.hostname ≠ "" ∧ Text.trim j.hostname ≠ ""
  isNew : db.NewTo i ∧ db.NewTo j
  last : db.lastHost + 1 = Cell.highest

/-- What it comes to that an identity is recorded, at whatever time. -/
inductive Fate where
  | refused (fault : Fault)
  /-- There is a peer of the name. -/
  | known (host : Host)
  | new

/-- What it comes to for an identity that describes no peer by an address alone. -/
inductive Database.Meets (db : Database) (identity : Identity) : Fate → Prop
  | unnamed (blank : Text.trim identity.hostname = "") :
      Meets db identity (.refused (.invalid "empty hostname"))
  | own {self : HostRow} (named : Text.trim identity.hostname ≠ "") (mem : self ∈ db.hosts)
      (isSelf : self.isSelf = true)
      (described : self.DescribedBy identity (Text.trim identity.hostname)) :
      Meets db identity (.refused (.isLocal (Text.trim identity.hostname)))
  | known {r : HostRow} {host : Host}
      (free : ∀ s ∈ db.hosts, s.isSelf = true →
        ¬s.DescribedBy identity (Text.trim identity.hostname))
      (name : db.PeerWith HostRow.hostname (Text.trim identity.hostname) r)
      (tells : r.Tells host) : Meets db identity (.known host)
  | new (named : Text.trim identity.hostname ≠ "") (isNew : db.NewTo identity) :
      Meets db identity .new

namespace Fate

/-- The number that is given out when `last` was the last one. -/
def given (last : Int) : Fate → Option Int
  | .new => if last < Cell.highest then some (last + 1) else none
  | _ => none

/-- The last number that has been given out afterwards. -/
def lastGiven (last : Int) (fate : Fate) : Int := (fate.given last).getD last

/-- What becomes of a row that is there already. -/
def change (identity : Identity) (now : String) (r : HostRow) : Fate → HostRow
  | .known _ =>
    if r.hostname = Text.trim identity.hostname then
      r.merge identity (Text.trim identity.hostname) now
    else r
  | _ => r

def answer (identity : Identity) (now : Time.Instant) (last : Int) (fate : Fate) :
    Except Fault Host :=
  match fate with
  | .refused fault => .error fault
  | .known host => .ok (host.merge identity (Text.trim identity.hostname) now)
  | .new =>
    match fate.given last with
    | some id => .ok ((Host.unknown id now).merge identity (Text.trim identity.hostname) now)
    | none => .error Statements.full

def apply (identity : Identity) (now : String) (db : Database) (fate : Fate) : Database :=
  { db with
    hosts := (db.hosts.map fun r => fate.change identity now r) ++
      (fate.given db.lastHost).toList.map
        (HostRow.ofPeer identity (Text.trim identity.hostname) now)
    lastHost := fate.lastGiven db.lastHost }

end Fate

section Meeting

variable {db : Database} {identity : Identity} {fate : Fate}

/-- An identity that does not describe the local host describes none but the peer of its name. -/
theorem Database.OnlyNamesake.peerWith (only : db.OnlyNamesake identity) (hdb : db.HostsSound)
    (named : Text.trim identity.hostname ≠ "")
    (free : ∀ s ∈ db.hosts, s.isSelf = true →
      ¬s.DescribedBy identity (Text.trim identity.hostname)) {r : HostRow} (mem : r ∈ db.hosts)
    (described : r.DescribedBy identity (Text.trim identity.hostname)) :
    db.PeerWith HostRow.hostname (Text.trim identity.hostname) r := by
  have isPeer := (hdb.rows r mem).isPeer_of_not_isSelf fun isSelf => free r mem isSelf described
  exact ⟨mem, isPeer, only r mem isPeer described, named⟩

theorem Database.HostsSound.exists_meets (hdb : db.HostsSound) (only : db.OnlyNamesake identity) :
    ∃ fate, db.Meets identity fate := by
  by_cases named : Text.trim identity.hostname = ""
  · exact ⟨_, .unnamed named⟩
  by_cases own : ∃ self ∈ db.hosts, self.isSelf = true ∧
      self.DescribedBy identity (Text.trim identity.hostname)
  · obtain ⟨self, mem, isSelf, described⟩ := own
    exact ⟨_, .own named mem isSelf described⟩
  have free : ∀ s ∈ db.hosts, s.isSelf = true →
      ¬s.DescribedBy identity (Text.trim identity.hostname) :=
    fun s mem isSelf described => own ⟨s, mem, isSelf, described⟩
  by_cases name : ∃ r, db.PeerWith HostRow.hostname (Text.trim identity.hostname) r
  · obtain ⟨r, name⟩ := name
    obtain ⟨host, tells⟩ := (hdb.rows r name.mem).read
    exact ⟨_, .known free name tells⟩
  · exact ⟨_, .new named fun r mem described =>
      name ⟨r, only.peerWith hdb named free mem described⟩⟩

theorem Fate.apply_refused (identity : Identity) (now : String) (db : Database) (fault : Fault) :
    (Fate.refused fault).apply identity now db = db := by
  simp [apply, change, lastGiven, given]

/-- Where the peer of the name is the only one described, no other has anything to give up. -/
theorem Database.OnlyNamesake.merge_or_yielding (only : db.OnlyNamesake identity)
    (hdb : db.HostsSound)
    (free : ∀ s ∈ db.hosts, s.isSelf = true →
      ¬s.DescribedBy identity (Text.trim identity.hostname)) {r s : HostRow}
    (name : db.PeerWith HostRow.hostname (Text.trim identity.hostname) r) (hs : s ∈ db.hosts)
    (now : String) (host : Host) :
    (if s = r then r.merge identity (Text.trim identity.hostname) now
      else s.yielding identity) = (Fate.known host).change identity now s := by
  by_cases hsr : s = r
  · rw [if_pos hsr, Fate.change, if_pos (hsr ▸ name.holds), hsr]
  · have hname : s.hostname ≠ Text.trim identity.hostname := fun heq =>
      hsr (HostRow.key_hostname.eq hdb.distinct hs name.mem (heq ▸ name.nonempty)
        (heq.trans name.holds.symm))
    have other : ¬s.DescribedBy identity (Text.trim identity.hostname) := fun described =>
      hname (only.peerWith hdb name.nonempty free hs described).holds
    rw [if_neg hsr, Fate.change, if_neg hname, HostRow.yielding_of_not_describedBy other]

/-- What has been foreseen comes to pass. -/
theorem Upserted.of_meets {answer : Except Fault Host} {after : Database} {now : Time.Moment}
    (h : Upserted db identity (Time.storedText now.1) answer after) (hdb : db.HostsSound)
    (only : db.OnlyNamesake identity) (meets : db.Meets identity fate) :
    answer = fate.answer identity now.1 db.lastHost ∧
      after = fate.apply identity (Time.storedText now.1) db := by
  cases meets with
  | unnamed blank =>
    rw [Fate.apply_refused]
    cases h with
    | unnamed => exact ⟨rfl, rfl⟩
    | own named | merged named | created named | full named => exact absurd blank named
  | own named mem isSelf described =>
    rw [Fate.apply_refused]
    cases h with
    | unnamed blank => exact absurd blank named
    | own => exact ⟨rfl, rfl⟩
    | merged _ free | created _ free | full _ free =>
      exact absurd described (free _ mem isSelf)
  | @known r host free name tells =>
    obtain ⟨hanswer, hafter⟩ := h.of_isAbout hdb name.nonempty free (.named name) tells
    refine ⟨hanswer, hafter.trans ?_⟩
    have hchange := fun s (hs : s ∈ db.hosts) =>
      only.merge_or_yielding hdb free name hs (Time.storedText now.1) host
    simp [Fate.apply, Fate.lastGiven, Fate.given, List.map_congr_left hchange]
  | new named isNew =>
    have nobody : ∀ r, ¬db.IsAbout identity (Text.trim identity.hostname) r :=
      fun r about => isNew r about.mem about.describedBy
    have free : ∀ s ∈ db.hosts, s.isSelf = true →
        ¬s.DescribedBy identity (Text.trim identity.hostname) := fun s mem _ => isNew s mem
    have hkept : db.hosts.map (HostRow.yielding identity) = db.hosts :=
      (List.map_congr_left fun s hs => HostRow.yielding_of_not_describedBy (isNew s hs)).trans
        (List.map_id _)
    obtain ⟨room, hanswer, hafter⟩ | ⟨last, hanswer, hafter⟩ :=
      h.of_not_isAbout hdb named free nobody
    · rw [hanswer, hafter, hkept]
      simp [Fate.answer, Fate.apply, Fate.lastGiven, Fate.given, Fate.change, room]
    · rw [hanswer, hafter]
      simp [Fate.answer, Fate.apply, Fate.lastGiven, Fate.given, Fate.change, ← last]

end Meeting

section Commuting

variable {db : Database} {i j : Identity} {fi fj : Fate}

/-- The identity describes the same rows in both databases. -/
def Database.SameFor (identity : Identity) (db db' : Database) : Prop :=
  ∀ r : HostRow, r.DescribedBy identity (Text.trim identity.hostname) →
    (r ∈ db'.hosts ↔ r ∈ db.hosts)

namespace Database.SameFor

variable {db' : Database} {identity : Identity}

theorem meets (h : SameFor identity db db') {fate : Fate} (meets : db.Meets identity fate) :
    db'.Meets identity fate := by
  cases meets with
  | unnamed blank => exact .unnamed blank
  | own named mem isSelf described => exact .own named ((h _ described).mpr mem) isSelf described
  | known free name tells =>
    refine .known (fun s hs isSelf described => ?_)
      ⟨(h _ (.inl name.holds)).mpr name.mem, name.isPeer, name.holds, name.nonempty⟩ tells
    exact free s ((h s described).mp hs) isSelf described
  | new named isNew =>
    exact .new named fun r hr described => isNew r ((h r described).mp hr) described

theorem onlyNamesake (h : SameFor identity db db') (only : db.OnlyNamesake identity) :
    db'.OnlyNamesake identity :=
  fun r hr isPeer described => only r ((h r described).mp hr) isPeer described

end Database.SameFor

theorem HostRow.not_describedBy_merge (apart : i.Apart j) {r : HostRow}
    (other : ¬r.DescribedBy i (Text.trim i.hostname)) (now : String) :
    ¬(r.merge j (Text.trim j.hostname) now).DescribedBy i (Text.trim i.hostname) := by
  obtain ⟨-, hin, hout⟩ := not_describedBy_iff.mp other
  refine not_describedBy_iff.mpr ⟨apart.hostname.symm, fun hne => ?_, fun hne => ?_⟩
  · simp only [merge, replaced]
    split
    · exact hin hne
    · exact (apart.internal hne).symm
  · simp only [merge, replaced]
    split
    · exact hout hne
    · exact (apart.external hne).symm

theorem HostRow.not_describedBy_ofPeer (apart : i.Apart j) (now : String) (id : Int) :
    ¬(ofPeer j (Text.trim j.hostname) now id).DescribedBy i (Text.trim i.hostname) :=
  not_describedBy_iff.mpr ⟨apart.hostname.symm, fun hne => (apart.internal hne).symm,
    fun hne => (apart.external hne).symm⟩

/-- What becomes of one identity leaves the rows that the other describes. -/
theorem Database.Meets.sameFor (meets : db.Meets j fj) (hdb : db.HostsSound) (apart : i.Apart j)
    (only : db.OnlyNamesake i) (now : String) : SameFor i db (fj.apply j now db) := by
  intro r described
  cases meets with
  | unnamed | own => rw [Fate.apply_refused]
  | @known _ host free =>
    have hnamed : ∀ s ∈ db.hosts, s.DescribedBy i (Text.trim i.hostname) →
        s.hostname ≠ Text.trim j.hostname := by
      intro s hs hsi hsj
      by_cases isSelf : s.isSelf = true
      · exact free s hs isSelf (.inl hsj)
      · have isPeer := (hdb.rows s hs).isPeer_of_not_isSelf isSelf
        exact apart.hostname ((only s hs isPeer hsi).symm.trans hsj)
    simp only [Fate.apply, Fate.given, Option.toList_none, List.map_nil, List.append_nil,
      List.mem_map, Fate.change]
    constructor
    · rintro ⟨s, hs, rfl⟩
      split at described
      · have other : ¬s.DescribedBy i (Text.trim i.hostname) := fun hsi => hnamed s hs hsi ‹_›
        exact absurd described (HostRow.not_describedBy_merge apart other now)
      · rwa [if_neg ‹_›]
    · intro hr
      exact ⟨r, hr, if_neg (hnamed r hr described)⟩
  | new =>
    simp only [Fate.apply, Fate.change, List.map_id', List.mem_append, List.mem_map]
    refine ⟨fun hr => hr.resolve_right ?_, .inl⟩
    rintro ⟨id, -, rfl⟩
    exact HostRow.not_describedBy_ofPeer apart now id described

/-- The two answers, and the store, when one identity is recorded and then the other. -/
theorem upsertHost_upsertHost {store : Store} (hdb : store.database.HostsSound)
    (apart : i.Apart j) (hi : store.database.OnlyNamesake i) (hj : store.database.OnlyNamesake j)
    (meets : store.database.Meets i fi) (meets' : store.database.Meets j fj)
    (t u : Time.Moment) :
    let one := fi.apply i (Time.storedText t.1) store.database
    store.upsertHost t.1 i =
        (fi.answer i t.1 store.database.lastHost, { store with database := one }) ∧
      ({ store with database := one } : Store).upsertHost u.1 j =
        (fj.answer j u.1 one.lastHost,
          { store with database := fj.apply j (Time.storedText u.1) one }) := by
  intro one
  obtain ⟨_, _, hrun, h⟩ := upsertHost_upserted hdb t i
  obtain ⟨rfl, rfl⟩ := h.of_meets hdb hi meets
  have hone : ({ store with database := one } : Store).database.HostsSound :=
    h.sound hdb (isStoredTime_storedText t)
  have hsame := meets.sameFor hdb apart.symm hj (Time.storedText t.1)
  obtain ⟨_, _, hrun', h'⟩ := upsertHost_upserted hone u j
  obtain ⟨rfl, rfl⟩ := h'.of_meets hone (hsame.onlyNamesake hj) (hsame.meets meets')
  exact ⟨hrun, hrun'⟩

/-- `σ` takes the numbers that are given out when `fi` comes before `fj` to those that are given out
in the other order, and leaves those up to `last`. -/
structure Renumbers (σ : Equiv.Perm Int) (last : Int) (fi fj : Fate) : Prop where
  fixes : ∀ id ≤ last, σ id = id
  first : (fi.given last).map σ = fi.given (fj.lastGiven last)
  second : (fj.given (fi.lastGiven last)).map σ = fj.given last
  lasts : fj.lastGiven (fi.lastGiven last) = fi.lastGiven (fj.lastGiven last)

namespace Fate

theorem given_of_lt {last : Int} (h : last < Cell.highest) :
    Fate.new.given last = some (last + 1) := if_pos h

theorem given_of_full {last : Int} (h : ¬last < Cell.highest) (fate : Fate) :
    fate.given last = none := by
  cases fate with
  | refused | known => rfl
  | new => exact if_neg h

theorem given_of_ne {fate : Fate} (h : fate ≠ .new) (last : Int) : fate.given last = none := by
  cases fate with
  | refused | known => rfl
  | new => exact absurd rfl h

theorem lt_of_given {last id : Int} {fate : Fate} (h : fate.given last = some id) : last < id := by
  cases fate with
  | refused | known => cases h
  | new =>
    simp only [given, Option.ite_none_right_eq_some, Option.some.injEq] at h
    omega

theorem le_lastGiven (last : Int) (fate : Fate) : last ≤ fate.lastGiven last := by
  unfold lastGiven
  cases hgiven : fate.given last with
  | none => exact Int.le_refl last
  | some id => exact Int.le_of_lt (lt_of_given hgiven)

theorem exists_renumbers (fi fj : Fate) {last : Int}
    (room : fi = .new → fj = .new → last + 1 ≠ Cell.highest) :
    ∃ σ, Renumbers σ last fi fj := by
  by_cases hlt : last < Cell.highest
  · by_cases hi : fi = .new
    · by_cases hj : fj = .new
      · -- Either gets in one order the number that the other gets in the other order.
        subst hi hj
        have hlt' : last + 1 < Cell.highest := by
          have := room rfl rfl
          omega
        refine ⟨Equiv.swap (last + 1) (last + 1 + 1), fun id hid => ?_, ?_, ?_, rfl⟩
        · exact Equiv.swap_apply_of_ne_of_ne (by omega) (by omega)
        · simp [lastGiven, given_of_lt hlt, given_of_lt hlt']
        · simp [lastGiven, given_of_lt hlt, given_of_lt hlt']
      · exact ⟨Equiv.refl Int, fun _ _ => rfl, by simp [lastGiven, given_of_ne hj],
          by simp [given_of_ne hj], by simp [lastGiven, given_of_ne hj]⟩
    · exact ⟨Equiv.refl Int, fun _ _ => rfl, by simp [given_of_ne hi],
        by simp [lastGiven, given_of_ne hi], by simp [lastGiven, given_of_ne hi]⟩
  · have hfull := given_of_full hlt
    exact ⟨Equiv.refl Int, fun _ _ => rfl, by simp [lastGiven, hfull],
      by simp [lastGiven, hfull], by simp [lastGiven, hfull]⟩

theorem change_of_ne {identity : Identity} {r : HostRow}
    (h : r.hostname ≠ Text.trim identity.hostname) (now : String) (fate : Fate) :
    fate.change identity now r = r := by
  cases fate with
  | refused | new => rfl
  | known => exact if_neg h

theorem change_known {identity : Identity} {r : HostRow}
    (h : r.hostname = Text.trim identity.hostname) (now : String) (host : Host) :
    (known host).change identity now r = r.merge identity (Text.trim identity.hostname) now :=
  if_pos h

theorem hostname_change (identity : Identity) (now : String) (r : HostRow) (fate : Fate) :
    (fate.change identity now r).hostname = r.hostname := by
  by_cases h : r.hostname = Text.trim identity.hostname
  · cases fate with
    | refused | new => rfl
    | known =>
      rw [change_known h]
      exact h.symm
  · rw [change_of_ne h]

variable {σ : Equiv.Perm Int} {last : Int} {names : List String} {identity : Identity}

theorem change_alike {r : HostRow} (hσ : σ r.id = r.id)
    (hname : Text.trim identity.hostname ∈ names) (t u : String) (fate : Fate) :
    (fate.change identity t r).Alike σ last names (fate.change identity u r) := by
  have hrefl : r.Alike σ last names r := ⟨by rw [hσ], fun _ => rfl, fun _ => rfl⟩
  by_cases h : r.hostname = Text.trim identity.hostname
  · cases fate with
    | refused | new => exact hrefl
    | known =>
      rw [change_known h, change_known h]
      exact ⟨by simp [HostRow.merge, hσ], fun _ => rfl, fun hne => absurd hname hne⟩
  · rwa [change_of_ne h, change_of_ne h]

/-- A row that is there already is changed alike in both orders. -/
theorem change_change_alike (apart : i.Apart j) {r : HostRow} (hσ : σ r.id = r.id)
    (t u t' u' : String) (fi fj : Fate) :
    (fj.change j u (fi.change i t r)).Alike σ last
      [Text.trim i.hostname, Text.trim j.hostname] (fi.change i t' (fj.change j u' r)) := by
  by_cases hi : r.hostname = Text.trim i.hostname
  · have hj : r.hostname ≠ Text.trim j.hostname := fun hj => apart.hostname (hi.symm.trans hj)
    rw [change_of_ne hj, change_of_ne ((hostname_change i t r fi).trans_ne hj)]
    exact change_alike hσ (by simp) t t' fi
  · rw [change_of_ne hi, change_of_ne ((hostname_change j u' r fj).trans_ne hi)]
    exact change_alike hσ (by simp) u u' fj

theorem ofPeer_alike (hname : Text.trim identity.hostname ∈ names) (t u : String) {id : Int}
    (hid : last < id) :
    (HostRow.ofPeer identity (Text.trim identity.hostname) t id).Alike σ last names
      (HostRow.ofPeer identity (Text.trim identity.hostname) u (σ id)) :=
  ⟨rfl, fun hle => absurd hid (Int.not_lt.mpr hle), fun hne => absurd hname hne⟩

/-- The rows that are added in the two orders. -/
theorem added_alike {fate : Fate} {n m : Int} (hgiven : (fate.given n).map σ = fate.given m)
    (hlast : last ≤ n) (hname : Text.trim identity.hostname ∈ names) (t u : String) :
    List.Forall₂ (HostRow.Alike σ last names)
      ((fate.given n).toList.map (HostRow.ofPeer identity (Text.trim identity.hostname) t))
      ((fate.given m).toList.map (HostRow.ofPeer identity (Text.trim identity.hostname) u)) := by
  rw [← hgiven, Option.toList_map, List.map_map, List.forall₂_map_left_iff,
    List.forall₂_map_right_iff, List.forall₂_same]
  intro id hid
  have := lt_of_given (Option.mem_toList.mp hid)
  exact ofPeer_alike hname t u (by omega)

theorem answer_alike {fate : Fate} {n m : Int} (hgiven : (fate.given n).map σ = fate.given m)
    (hlast : last ≤ n) (hfix : ∀ id ≤ last, σ id = id)
    (hknown : ∀ host, fate = .known host → host.id ≤ last) (t u : Time.Instant) :
    AnswersAlike σ last (fate.answer identity t n) (fate.answer identity u m) := by
  cases fate with
  | refused fault => exact .refused fault
  | known host =>
    refine .told ⟨?_, fun _ => rfl⟩
    simp [Host.merge, hfix _ (hknown host rfl)]
  | new =>
    rw [answer, answer, ← hgiven]
    cases hn : Fate.new.given n with
    | none => exact .refused _
    | some id =>
      have hid := lt_of_given hn
      refine .told ⟨rfl, fun hle => ?_⟩
      have : id ≤ last := hle
      omega

/-- The rows that one identity adds are not changed for the other. -/
theorem map_change_added (apart : i.Apart j) (t u : String) (ids : List Int) (fate : Fate) :
    ((ids.map (HostRow.ofPeer i (Text.trim i.hostname) t)).map fun r => fate.change j u r) =
      ids.map (HostRow.ofPeer i (Text.trim i.hostname) t) := by
  rw [List.map_map]
  exact List.map_congr_left fun id _ => change_of_ne apart.hostname u fate

/-- The tables when what becomes of one identity is followed by what becomes of the other. -/
theorem apply_apply (apart : i.Apart j) (db : Database) (t u : String) (fi fj : Fate) :
    fj.apply j u (fi.apply i t db) =
      { db with
        hosts := (db.hosts.map fun r => fj.change j u (fi.change i t r)) ++
          ((fi.given db.lastHost).toList.map (HostRow.ofPeer i (Text.trim i.hostname) t) ++
            (fj.given (fi.lastGiven db.lastHost)).toList.map
              (HostRow.ofPeer j (Text.trim j.hostname) u))
        lastHost := fj.lastGiven (fi.lastGiven db.lastHost) } := by
  simp only [apply, List.map_append, map_change_added apart, List.map_map, List.append_assoc]
  rfl

end Fate

theorem Database.Meets.id_le (hdb : db.HostsSound) {host : Host}
    (meets : db.Meets i (.known host)) : host.id ≤ db.lastHost := by
  cases meets with
  | known _ name tells =>
    rw [tells.id]
    exact (hdb.numbered _ name.mem).2

/-- The two orders leave the same tables. -/
theorem Renumbers.alike {store : Store} {σ : Equiv.Perm Int}
    (h : Renumbers σ store.database.lastHost fi fj) (hdb : store.database.HostsSound)
    (apart : i.Apart j) (t u t' u' : String) :
    Alike σ store.database.lastHost [Text.trim i.hostname, Text.trim j.hostname]
      { store with database := fj.apply j u (fi.apply i t store.database) }
      { store with database := fi.apply i t' (fj.apply j u' store.database) } := by
  rw [Fate.apply_apply apart, Fate.apply_apply apart.symm]
  refine ⟨⟨_, List.rel_append ?_ (List.rel_append
    (Fate.added_alike h.first (Int.le_refl _) (by simp) t t')
    (Fate.added_alike h.second (fi.le_lastGiven _) (by simp) u u')),
    List.perm_append_comm.append_left _⟩, ?_⟩
  · rw [List.forall₂_map_left_iff, List.forall₂_map_right_iff, List.forall₂_same]
    intro r hr
    exact Fate.change_change_alike apart (h.fixes r.id (hdb.numbered r hr).2) t u t' u' fi fj
  · simp only [h.lasts]

theorem Database.NewTo.onlyNamesake (isNew : db.NewTo i) : db.OnlyNamesake i :=
  fun r hr _ described => absurd described (isNew r hr)

theorem Database.Contended.symm (h : db.Contended i j) : db.Contended j i :=
  ⟨h.named.symm, h.isNew.symm, h.last⟩

/-- The number that is left goes to the identity that is recorded first. -/
theorem Database.Contended.first_come {store : Store} (h : store.database.Contended i j)
    (hdb : store.database.HostsSound) (apart : i.Apart j) (t u : Time.Moment) :
    let first := store.upsertHost t.1 i
    (∃ host, first.1 = .ok host) ∧ (first.2.upsertHost u.1 j).1 = .error Statements.full := by
  intro first
  have hlast := h.last
  have hlt : store.database.lastHost < Cell.highest := by omega
  have hfull : ¬store.database.lastHost + 1 < Cell.highest := by omega
  obtain ⟨hone, htwo⟩ := upsertHost_upsertHost hdb apart h.isNew.1.onlyNamesake
    h.isNew.2.onlyNamesake (.new h.named.1 h.isNew.1) (.new h.named.2 h.isNew.2) t u
  rw [show first = _ from hone, htwo]
  constructor
  · simp only [Fate.answer, Fate.given_of_lt hlt]
    exact ⟨_, rfl⟩
  · simp only [Fate.apply, Fate.lastGiven, Fate.given_of_lt hlt, Option.getD_some, Fate.answer,
      Fate.given_of_full hfull]

end Commuting

/-- After every run, two identities with different names and no address in common, each of which
describes no peer but the one of its name, come to the same in whichever order and at whatever times
they are recorded: both answers and the store are equal but for the numbers of new hosts and the
times at which hosts were seen. Only if both need a new row and there is one number left does the
first one get it. -/
theorem upsertHost_commutes (writes : List Write) {i j : Identity} (apart : i.Apart j)
    (hi : (({} : Store).after writes).database.OnlyNamesake i)
    (hj : (({} : Store).after writes).database.OnlyNamesake j)
    (room : ¬(({} : Store).after writes).database.Contended i j) (t u t' u' : Time.Moment) :
    let store := ({} : Store).after writes
    let last := store.database.lastHost
    let first := store.upsertHost t.1 i
    let second := first.2.upsertHost u.1 j
    let first' := store.upsertHost u'.1 j
    let second' := first'.2.upsertHost t'.1 i
    ∃ σ : Equiv.Perm Int, (∀ id ≤ last, σ id = id) ∧
      AnswersAlike σ last first.1 second'.1 ∧ AnswersAlike σ last second.1 first'.1 ∧
      Alike σ last [Text.trim i.hostname, Text.trim j.hostname] second.2 second'.2 := by
  intro store last first second first' second'
  have hdb : store.database.HostsSound := hostsSound_after hostsSound_empty writes
  obtain ⟨fi, meets⟩ := hdb.exists_meets hi
  obtain ⟨fj, meets'⟩ := hdb.exists_meets hj
  have hroom : fi = .new → fj = .new → last + 1 ≠ Cell.highest := by
    rintro rfl rfl hlast
    cases meets with
    | new named isNew =>
      cases meets' with
      | new named' isNew' => exact room ⟨⟨named, named'⟩, ⟨isNew, isNew'⟩, hlast⟩
  obtain ⟨σ, h⟩ := Fate.exists_renumbers fi fj hroom
  obtain ⟨hone, htwo⟩ := upsertHost_upsertHost hdb apart hi hj meets meets' t u
  obtain ⟨hone', htwo'⟩ := upsertHost_upsertHost hdb apart.symm hj hi meets' meets u' t'
  refine ⟨σ, h.fixes, ?_, ?_, ?_⟩
  · simp only [second', first, first', hone, hone', htwo']
    exact Fate.answer_alike h.first (Int.le_refl last) h.fixes
      (fun _ hf => (hf ▸ meets).id_le hdb) t.1 t'.1
  · simp only [second, first, first', hone, hone', htwo]
    exact Fate.answer_alike h.second (fi.le_lastGiven last) h.fixes
      (fun _ hf => (hf ▸ meets').id_le hdb) u.1 u'.1
  · simp only [second, second', first, first', hone, hone', htwo, htwo']
    exact h.alike hdb apart _ _ _ _

/-- The local host and one peer. -/
def couple : List Write :=
  [.upsertHost Time.epoch { hostname := "b", internalAddress := "10.0.0.2" },
    .registerStart Time.epoch { hostname := "d", internalAddress := "10.0.0.1" }]

/-- Two more peers. The public address of one is the internal address of the other. -/
def newcomer : Identity :=
  { hostname := " e ", internalAddress := "10.0.0.5", publicAddress := "1.2.3.5" }

def latecomer : Identity := { hostname := "f", internalAddress := "1.2.3.5" }

theorem apart_newcomer_latecomer : newcomer.Apart latecomer :=
  ⟨by decide, fun _ => by decide, fun _ => by decide⟩

/-- The two get the numbers three and four, and four and three in the other order. -/
theorem upsertHost_commutes_for_couple :
    let store := ({} : Store).after couple
    let second := (store.upsertHost Time.epoch.1 newcomer).2.upsertHost nextSecond.1 latecomer
    let second' := (store.upsertHost Time.epoch.1 latecomer).2.upsertHost nextSecond.1 newcomer
    newcomer.Apart latecomer ∧ store.database.OnlyNamesake newcomer ∧
      store.database.OnlyNamesake latecomer ∧ ¬store.database.Contended newcomer latecomer ∧
      ∃ σ : Equiv.Perm Int, (∀ id ≤ 2, σ id = id) ∧ σ 3 = 4 ∧ σ 4 = 3 ∧
        Alike σ 2 ["e", "f"] second.2 second'.2 := by
  intro store second second'
  have hi : store.database.OnlyNamesake newcomer := by
    unfold Database.OnlyNamesake HostRow.DescribedBy
    decide +kernel
  have hj : store.database.OnlyNamesake latecomer := by
    unfold Database.OnlyNamesake HostRow.DescribedBy
    decide +kernel
  have hlast : store.database.lastHost = 2 := by decide +kernel
  have room : ¬store.database.Contended newcomer latecomer := by
    intro contended
    have := contended.last
    rw [hlast] at this
    cases this
  obtain ⟨σ, hfix, hfirst, hsecond, halike⟩ := upsertHost_commutes couple apart_newcomer_latecomer
    hi hj room Time.epoch nextSecond nextSecond Time.epoch
  have hnumbers : (store.upsertHost Time.epoch.1 newcomer).1.toOption.map (·.id) = some 3 ∧
      second.1.toOption.map (·.id) = some 4 ∧
      (store.upsertHost Time.epoch.1 latecomer).1.toOption.map (·.id) = some 3 ∧
      second'.1.toOption.map (·.id) = some 4 := by decide +kernel
  obtain ⟨hone, htwo, hone', htwo'⟩ := hnumbers
  exact ⟨apart_newcomer_latecomer, hi, hj, room, σ, fun id hid => hfix id (hlast ▸ hid),
    hfirst.id hone htwo', hsecond.id htwo hone', hlast ▸ halike⟩

/-- With one number left, the second one is refused, and is not when it comes first. -/
theorem upsertHost_contended :
    let store := ({} : Store).after (comings 9223372036854775806)
    newcomer.Apart latecomer ∧ store.database.OnlyNamesake newcomer ∧
      store.database.OnlyNamesake latecomer ∧
      ((store.upsertHost Time.epoch.1 newcomer).2.upsertHost Time.epoch.1 latecomer).1 =
        .error Statements.full ∧
      ∃ host, (store.upsertHost Time.epoch.1 latecomer).1 = .ok host := by
  have hdb := hostsSound_after hostsSound_empty (comings 9223372036854775806)
  rw [after_comings (by decide)] at hdb ⊢
  have isNew (identity : Identity) :
      (forsaken 9223372036854775806).database.NewTo identity := fun r hr => nomatch hr
  have contended : (forsaken 9223372036854775806).database.Contended newcomer latecomer :=
    ⟨by decide, ⟨isNew _, isNew _⟩, by decide⟩
  obtain ⟨-, hrefused⟩ :=
    contended.first_come hdb apart_newcomer_latecomer Time.epoch Time.epoch
  obtain ⟨haccepted, -⟩ :=
    contended.symm.first_come hdb apart_newcomer_latecomer.symm Time.epoch Time.epoch
  exact ⟨apart_newcomer_latecomer, (isNew _).onlyNamesake, (isNew _).onlyNamesake, hrefused,
    haccepted⟩

end Store
end PeerHealth
