import PeerHealth.Proofs.Scheduler.Ticks
import PeerHealth.Proofs.Store.Merging

/-! What a job learns of its host. Main statements: a job learns from the first of its answers that
has a body, and from no other one; and learning makes no host anew as long as the host is in the
record under its name. -/

namespace PeerHealth

namespace Store

/-- The number of each host, with the port that it serves on and the address that it was found
at. -/
def Database.standing (db : Database) : List (Int × Cell × String) :=
  db.hosts.map fun r => (r.id, r.servicePort, r.discoveredAddress)

section Standing

variable {db after : Database} {identity : Identity} {now : String}

/-- To record an identity without a port and an address that it was found at leaves those of every
host, unless the identity is new. -/
theorem Upserted.standing_eq {answer : Except Fault Host}
    (h : Upserted db identity now answer after) (hdb : db.HostsSound)
    (hport : identity.servicePort = 0) (hfound : identity.discoveredAddress = "")
    (hold : ¬(Text.trim identity.hostname ≠ "" ∧ db.NewTo identity ∧
      db.lastHost < Cell.highest)) : after.standing = db.standing := by
  cases h with
  | unnamed | own | full => rfl
  | @merged r _ _ _ mem =>
    rw [Database.merged_eq hdb.distinct now mem, Database.standing, Database.standing,
      List.map_map]
    refine List.map_congr_left fun s _ => ?_
    simp only [Function.comp_apply]
    split
    · rename_i heq
      simp [HostRow.merge, replaced, hport, hfound, heq]
    · unfold HostRow.yielding
      split <;> rfl
  | created named free none room => exact absurd ⟨named, hdb.newTo named free none, room⟩ hold

theorem Database.standing_withPeer (db : Database) (identity : Identity) (now : String) :
    (db.withPeer identity now).standing =
      db.standing ++
        [(db.lastHost + 1, .whole identity.servicePort.toNat, identity.discoveredAddress)] :=
  List.map_append

end Standing

end Store

namespace Scheduler

open Store (Database HostRow Upserted)

/-- The document in a body, if it has a host's name. -/
def ownDocument? (host : Host) (body : String) : Option Wire.Document :=
  match Wire.Document.ofBytes? (Text.Utf8.encode body) with
  | .ok d => if d.hostname = host.hostname then some d else none
  | .error _ => none

/-- To observe is to write the host's own document, if it is one. -/
theorem timed_observe (s : Scheduler) (host : Host) (body : String) :
    (s.observe host body).timed =
      match ownDocument? host body with
      | some d => (writeIdentity s.timed (d.toIdentity "" 0)).2
      | none => s.timed := by
  unfold observe ownDocument?
  cases Wire.Document.ofBytes? (Text.Utf8.encode body) with
  | error problem => rfl
  | ok d =>
    by_cases hname : d.hostname = host.hostname
    · simp only [if_pos hname, writeIdentity]
      generalize s.timed.write (fun store now => store.upsertHost now (d.toIdentity "" 0)) = written
      rfl
    · simp only [if_neg hname]

/-! ### Hosts that are made anew -/

/-- A body of which a host is made: the document is the host's own, and no host in the tables has
its name or one of its addresses. -/
def MakesAnew (db : Database) (host : Host) (body : String) : Prop :=
  ∃ d, ownDocument? host body = some d ∧ Text.trim d.hostname ≠ "" ∧
    db.NewTo (d.toIdentity "" 0) ∧ db.lastHost < Store.Cell.highest

theorem hostname_of_ownDocument? {host : Host} {body : String} {d : Wire.Document}
    (h : ownDocument? host body = some d) : d.hostname = host.hostname := by
  unfold ownDocument? at h
  split at h
  · split at h
    · cases h
      assumption
    · cases h
  · cases h

/-- No host is made anew while one has the name. -/
theorem not_makesAnew_of_named {db : Database} (hdb : db.HostsSound) {host : Host} {body : String}
    {r : HostRow} (mem : r ∈ db.hosts) (hname : r.hostname = host.hostname) :
    ¬MakesAnew db host body := by
  rintro ⟨d, hd, -, hnew, -⟩
  refine hnew r mem (.inl ?_)
  show r.hostname = Text.trim d.hostname
  rw [hostname_of_ownDocument? hd, ← hname, (hdb.rows r mem).trimmed]

/-- Whatever a job has learnt when it comes to observe its host, and whatever has been done to the
record meanwhile: no host changes its port or the address that it was found at, and none is added
unless no host has the name and the addresses that the body gives. The one that is added then has a
new number, no port, and no address that it was found at. -/
theorem observe_adds_only_what_is_new {s : Scheduler} {writes : List Store.Write}
    (hs : s.timed.store = ({} : Store).after writes) (hclock : ∀ n, (s.timed.clock n).Valid)
    (host : Host) (body : String) :
    let db := s.timed.store.database
    let after := (s.observe host body).timed.store.database
    (¬MakesAnew db host body → after.standing = db.standing) ∧
      (MakesAnew db host body →
        after.standing = db.standing ++ [(db.lastHost + 1, .whole 0, "")]) ∧
      ((∃ r ∈ db.hosts, r.hostname = host.hostname) → ¬MakesAnew db host body) ∧
      ∀ id, id ≤ db.lastHost → id ∉ db.standing.map (·.1) → id ∉ after.standing.map (·.1) := by
  intro db after
  have hsound := TimedStore.sound_of_reachable hs hclock
  have hkept : ¬MakesAnew db host body → after.standing = db.standing := by
    intro hold
    show (s.observe host body).timed.store.database.standing = _
    rw [timed_observe]
    cases hd : ownDocument? host body with
    | none => rfl
    | some d =>
      obtain ⟨answer, left, hwrite, h⟩ := writeIdentity_upserted hsound (d.toIdentity "" 0)
      simp only [hwrite]
      exact h.standing_eq hsound.hosts rfl rfl fun hnew => hold ⟨d, hd, hnew⟩
  have hadded : MakesAnew db host body →
      after.standing = db.standing ++ [(db.lastHost + 1, .whole 0, "")] := by
    rintro ⟨d, hd, named, hnew, room⟩
    show (s.observe host body).timed.store.database.standing = _
    obtain ⟨answer, left, hwrite, h⟩ := writeIdentity_upserted hsound (d.toIdentity "" 0)
    rw [timed_observe, hd]
    simp only [hwrite]
    obtain ⟨-, -, hleft⟩ | ⟨last, -⟩ := h.cases_of_new named hnew
    · show left.standing = _
      rw [hleft, Database.standing_withPeer]
      rfl
    · exact absurd last (Int.ne_of_lt room)
  refine ⟨hkept, hadded, fun ⟨r, mem, hname⟩ => not_makesAnew_of_named hsound.hosts mem hname, ?_⟩
  intro id hid hgone
  by_cases hnew : MakesAnew db host body
  · rw [hadded hnew, List.map_append, List.mem_append, not_or]
    refine ⟨hgone, ?_⟩
    rw [List.map_singleton, List.mem_singleton]
    omega
  · rwa [hkept hnew]

/-- A scheduler whose store holds a peer, with a clock that shows a later time. -/
def peerScheduler : Scheduler where
  timed :=
    { store := ({} : Store).after
        [.upsertHost Time.epoch
          { hostname := "b", internalAddress := "10.0.0.2", publicAddress := "1.2.3.4"
            servicePort := 5500 }]
      clock := fun _ => Store.nextSecond.1 }

/-- The peer, as a job has it that has been set up for it. -/
def checkedHost : Host :=
  { id := 1, hostname := "b", internalAddress := "10.0.0.2", publicAddress := "1.2.3.4"
    discoveredAddress := "", servicePort := 5500, firstSeen := ⟨0, 0⟩, lastSeen := ⟨0, 0⟩
    isLocal := false }

/-- While the peer is there, what it says of itself adds no host. -/
theorem observe_adds_only_what_is_new_of_peer :
    peerScheduler.timed.store.database.standing = [(1, .whole 5500, "")] ∧
      ¬MakesAnew peerScheduler.timed.store.database checkedHost sampleAnswer ∧
      (peerScheduler.observe checkedHost sampleAnswer).timed.store.database.standing =
        peerScheduler.timed.store.database.standing := by
  have hthere : ∃ r ∈ peerScheduler.timed.store.database.hosts,
      r.hostname = checkedHost.hostname := by decide +kernel
  obtain ⟨hkept, -, hnamed, -⟩ := observe_adds_only_what_is_new (s := peerScheduler) rfl
    (fun _ => Store.nextSecond.2) checkedHost sampleAnswer
  exact ⟨by decide +kernel, hnamed hthere, hkept (hnamed hthere)⟩

/-- A job begins and records its four checks, and then its host is deleted. -/
def deletionMoves : List Move :=
  .beginJob samplePlan 0 :: List.replicate 4 (.advance samplePlan inTurn 0) ++
    [.write (.deleteHost 1)]

/-- A host that is deleted during its check is made anew when the job comes to observe it. -/
theorem observe_makes_deleted_host_anew :
    let s := (sampleScheduler.tick samplePlan inTurn).2
    s.timed.store.database.standing = [(1, .whole 5500, "10.0.0.2")] ∧
      (s.moves deletionMoves).timed.store.database.hosts = [] ∧
      (s.moves deletionMoves).jobs.map (·.phase) = [.running [.observe sampleAnswer]] ∧
      ((s.moves deletionMoves).move
        (.advance samplePlan inTurn 0)).timed.store.database.standing = [(2, .whole 0, "")] := by
  decide +kernel

/-! ### Jobs -/

/-- The body that a job learns from: that of the first answer that has one. -/
def firstBody? (results : List CheckResult) : Option String :=
  (results.filter CheckResult.isAnswer).findSome? (·.body)

/-- What a job does before it asks its host whom it knows: it records the results, and learns from
the first answer. -/
def learn (s : Scheduler) (host : Host) (results : List CheckResult) : Scheduler :=
  let recorded := results.foldl (fun s r => s.record host r) s
  match firstBody? results with
  | some body => recorded.observe host body
  | none => recorded

/-- A job learns, and then it asks its host whom it knows if that answered on its public address. -/
theorem checkHost_eq (plan : Plan) (schedule : Schedule) (s : Scheduler) (host : Host) :
    s.checkHost plan schedule host =
      let learnt := s.learn host (results plan.seeker.prober host)
      if ((results plan.seeker.prober host).filter CheckResult.isAnswer).any
          (·.network = .external) then
        { learnt with timed := (plan.seeker.expand schedule host learnt.timed).2 }
      else learnt := by
  rw [checkHost]
  generalize results plan.seeker.prober host = rs
  simp only [tasksOf, learn, firstBody?, List.foldl_append, List.foldl_map]
  generalize (rs.filter CheckResult.isAnswer).any (·.network = .external) = asks
  cases (rs.filter CheckResult.isAnswer).findSome? (·.body) <;> cases asks <;>
    simp only [List.foldl_cons, List.foldl_nil, perform, if_true, if_false, Bool.false_eq_true]

/-- Nothing that is told at the addresses that a peer's answer leads to describes a host. -/
def Seeker.GossipSpares (s : Seeker) (peer : Host) (t : TimedStore) (h : Host) : Prop :=
  ∀ ds, s.prober.knownHosts peer.publicAddress = .ok ds →
    ∀ d ∈ t.store.database.newDocuments ds, ∀ address ∈ documentAddresses d, ∀ identity,
      s.told? address = some identity →
        Store.describes identity (Text.trim identity.hostname) h = false

section Kept

variable {t : TimedStore}

/-- A host that none of some identities describes is left as it is when they are written. -/
theorem mem_writeAll (ht : t.Sound) {r : HostRow} (mem : r ∈ t.store.database.hosts)
    {identities : List Identity}
    (other : ∀ identity ∈ identities,
      ¬r.DescribedBy identity (Text.trim identity.hostname)) :
    r ∈ (writeAll t identities).store.database.hosts := by
  induction identities generalizing t with
  | nil => exact mem
  | cons identity rest ih =>
    obtain ⟨answer, db, hwrite, h⟩ := writeIdentity_upserted ht identity
    have hnext := (hosted_writeIdentity ht identity).sound
    rw [writeAll_cons]
    refine ih hnext ?_ fun i hi => other i (List.mem_cons_of_mem _ hi)
    rw [hwrite]
    exact h.mem_of_not_describedBy ht.hosts mem (other identity (List.mem_cons_self ..))

/-- An expansion leaves a host that its gossip spares. -/
theorem mem_expand (ht : t.Sound) {s : Seeker} {peer host : Host} {r : HostRow}
    (mem : r ∈ t.store.database.hosts) (tells : r.Tells host)
    (spares : s.GossipSpares peer t host) (schedule : Schedule) :
    r ∈ (s.expand schedule peer t).2.store.database.hosts := by
  by_cases hpublic : peer.publicAddress = ""
  · rw [expand_of_silent (.inl hpublic)]
    exact mem
  · cases hasked : s.prober.knownHosts peer.publicAddress with
    | error fault =>
      rw [expand_of_silent (.inr ⟨fault, hasked⟩)]
      exact mem
    | ok ds =>
      rw [expand_eq_run ht.hosts hpublic hasked, Search.timed_run]
      refine mem_writeAll ht mem fun identity hidentity => ?_
      obtain ⟨f, hf, htold⟩ := List.mem_filterMap.mp hidentity
      obtain ⟨attempt, hattempt, huntried⟩ := Search.exists_untried_of_mem_fetches hf
      simp only [toTry, List.map_map, List.mem_map, Function.comp_apply] at hattempt
      obtain ⟨d, hd, rfl⟩ := hattempt
      have hspared := spares ds hasked d hd f.address huntried identity htold
      rw [← Store.describes_iff tells, hspared]
      exact Bool.false_ne_true

end Kept

/-- Checks have been written, `n` times, and hosts have not. -/
structure OnlyChecks (n : Nat) (t t' : TimedStore) : Prop where
  hosts : t'.store.database.hosts = t.store.database.hosts
  lastHost : t'.store.database.lastHost = t.store.database.lastHost
  clock : t'.clock = t.clock
  writes : t'.writes = t.writes + n

theorem onlyChecks_recordAll (s : Scheduler) (host : Host) (results : List CheckResult) :
    OnlyChecks results.length s.timed (results.foldl (fun s r => s.record host r) s).timed := by
  induction results generalizing s with
  | nil => exact ⟨rfl, rfl, rfl, rfl⟩
  | cons result rest ih =>
    obtain ⟨hhosts, hlast⟩ := s.timed.store.recordCheck_hosts s.timed.now host.id result
    have hrest := ih (s.record host result)
    refine ⟨hrest.hosts.trans hhosts, hrest.lastHost.trans hlast, hrest.clock, ?_⟩
    rw [List.foldl_cons, hrest.writes, List.length_cons]
    show s.timed.writes + 1 + rest.length = _
    omega

theorem OnlyChecks.sound {n : Nat} {t t' : TimedStore} (h : OnlyChecks n t t') (ht : t.Sound) :
    t'.Sound :=
  ⟨ht.hosts.congr h.hosts h.lastHost, fun k => h.clock ▸ ht.clock k⟩

/-- A document speaks of the local host: by its name or by one of its addresses. -/
def SpeaksOfLocal (db : Database) (d : Wire.Document) : Prop :=
  ∃ self ∈ db.hosts, self.isSelf = true ∧
    self.DescribedBy (d.toIdentity "" 0) (Text.trim d.hostname)

section Learning

variable {s : Scheduler} {host : Host} {rs : List CheckResult}

theorem timed_learn (s : Scheduler) (host : Host) (rs : List CheckResult) :
    (s.learn host rs).timed =
      match (firstBody? rs).bind (ownDocument? host) with
      | some d =>
        (writeIdentity (rs.foldl (fun s r => s.record host r) s).timed (d.toIdentity "" 0)).2
      | none => (rs.foldl (fun s r => s.record host r) s).timed := by
  rw [learn]
  cases firstBody? rs with
  | none => rfl
  | some body => exact timed_observe _ host body

theorem sound_learn (hsound : s.timed.Sound) (host : Host) (rs : List CheckResult) :
    (s.learn host rs).timed.Sound := by
  have hrecorded := (onlyChecks_recordAll s host rs).sound hsound
  rw [timed_learn]
  split
  · exact (hosted_writeIdentity hrecorded _).sound
  · exact hrecorded

/-- To write an identity merges it into the host that it is about. -/
theorem hostById_writeIdentity {t : TimedStore} (ht : t.Sound) {identity : Identity}
    (named : Text.trim identity.hostname ≠ "")
    (free : ∀ self ∈ t.store.database.hosts, self.isSelf = true →
      ¬self.DescribedBy identity (Text.trim identity.hostname))
    {r : HostRow} (about : t.store.database.IsAbout identity (Text.trim identity.hostname) r)
    (tells : r.Tells host) :
    (writeIdentity t identity).2.store.hostById host.id =
      .ok (host.merge identity (Text.trim identity.hostname) t.now) := by
  let now : Time.Moment := ⟨t.now, ht.clock t.writes⟩
  have hafter := (hosted_writeIdentity ht identity).sound.hosts
  obtain ⟨answer, db, hwrite, h⟩ := writeIdentity_upserted ht identity
  rw [hwrite] at hafter ⊢
  have hmerged := tells.merge identity (Text.trim identity.hostname) now
  have hwritten : Upserted t.store.database identity (Time.storedText now.1) answer db := h
  obtain ⟨-, hdb⟩ := hwritten.of_isAbout ht.hosts named free about tells
  have mem : r.merge identity (Text.trim identity.hostname) (Time.storedText now.1) ∈ db.hosts := by
    rw [hdb]
    exact List.mem_map.mpr ⟨r, about.mem, if_pos rfl⟩
  rw [tells.id]
  exact Database.hostById_eq_ok (r := r.merge identity _ _) hafter.distinct mem hmerged

/-- A job merges its host's own document into its host, at the time after its checks. -/
theorem hostById_learn (hsound : s.timed.Sound)
    (there : s.timed.store.hostById host.id = .ok host) (isPeer : host.isLocal = false)
    {d : Wire.Document} (own : (firstBody? rs).bind (ownDocument? host) = some d)
    (foreign : ¬SpeaksOfLocal s.timed.store.database d) :
    (s.learn host rs).timed.store.hostById host.id =
      .ok (host.merge (d.toIdentity "" 0) host.hostname
        (s.timed.clock (s.timed.writes + rs.length))) := by
  have honly := onlyChecks_recordAll s host rs
  obtain ⟨r, mem, -, tells⟩ := hsound.hosts.exists_tells there
  have hrow := hsound.hosts.rows r mem
  have hpeer : r.isPeer = true := by
    obtain ⟨n, hn, hlocal⟩ := tells.isLocal
    rw [isPeer] at hlocal
    rw [HostRow.isPeer_iff, hn]
    simpa using hlocal
  obtain ⟨body, -, hown⟩ := Option.bind_eq_some_iff.mp own
  have hname : Text.trim (d.toIdentity "" 0).hostname = host.hostname := by
    show Text.trim d.hostname = _
    rw [hostname_of_ownDocument? hown, tells.hostname, hrow.trimmed]
  have named : Text.trim (d.toIdentity "" 0).hostname ≠ "" := by
    rw [hname, tells.hostname]
    exact hrow.named
  have free : ∀ self ∈ s.timed.store.database.hosts, self.isSelf = true →
      ¬self.DescribedBy (d.toIdentity "" 0) (Text.trim (d.toIdentity "" 0).hostname) :=
    fun self hself isSelf described => foreign ⟨self, hself, isSelf, described⟩
  rw [← hname]
  rw [← honly.hosts] at mem free
  have name : Database.PeerWith _ HostRow.hostname (Text.trim (d.toIdentity "" 0).hostname) r :=
    ⟨mem, hpeer, tells.hostname.symm.trans hname.symm, named⟩
  have hwrite := hostById_writeIdentity (honly.sound hsound) named free (.named name) tells
  rw [timed_learn, own]
  rwa [TimedStore.now, honly.clock, honly.writes] at hwrite

/-- A job writes no host unless what it learns from is its host's own document, and that does not
speak of the local host. -/
theorem hosts_learn (hsound : s.timed.Sound)
    (refused : ∀ d, (firstBody? rs).bind (ownDocument? host) = some d →
      SpeaksOfLocal s.timed.store.database d) :
    (s.learn host rs).timed.store.database.hosts = s.timed.store.database.hosts := by
  have honly := onlyChecks_recordAll s host rs
  rw [timed_learn]
  cases hown : (firstBody? rs).bind (ownDocument? host) with
  | none => exact honly.hosts
  | some d =>
    obtain ⟨self, mem, isSelf, described⟩ := refused d hown
    obtain ⟨answer, db, hwrite, h⟩ :=
      writeIdentity_upserted (honly.sound hsound) (d.toIdentity "" 0)
    have hsame : db = (rs.foldl (fun s r => s.record host r) s).timed.store.database :=
      h.eq_of_own (honly.hosts ▸ mem) isSelf described
    simp only [hwrite]
    show db.hosts = _
    rw [hsame, honly.hosts]

theorem hostById_checkHost {plan : Plan} {schedule : Schedule} (hsound : s.timed.Sound) {h : Host}
    (learnt : (s.learn host (results plan.seeker.prober host)).timed.store.hostById host.id = .ok h)
    (spares : plan.seeker.GossipSpares host
      (s.learn host (results plan.seeker.prober host)).timed h) :
    (s.checkHost plan schedule host).timed.store.hostById host.id = .ok h := by
  have hlearnt := sound_learn hsound host (results plan.seeker.prober host)
  simp only [checkHost_eq]
  split
  · obtain ⟨r, mem, hid, tells⟩ := hlearnt.hosts.exists_tells learnt
    have hexpanded := (hosted_expand hlearnt plan.seeker schedule host).sound
    rw [← hid]
    exact Database.hostById_eq_ok hexpanded.hosts.distinct
      (mem_expand hlearnt mem tells spares schedule) tells
  · exact learnt

end Learning

/-- A job learns from the first of its answers that has a body. If that is a document with its
host's name, and it does not speak of the local host, the host has the addresses that it gives, and
was seen at the time after the checks. If it is not, no host is changed, whatever the other address
has answered. So it stays to the end of the job unless what is told on asking whom the host knows
describes the host. -/
theorem checkHost_learns_from_first_answer {s : Scheduler} {writes : List Store.Write}
    (hs : s.timed.store = ({} : Store).after writes) (hclock : ∀ n, (s.timed.clock n).Valid)
    {host : Host} (there : s.timed.store.hostById host.id = .ok host)
    (isPeer : host.isLocal = false) (plan : Plan) (schedule : Schedule) :
    let rs := results plan.seeker.prober host
    let own := (firstBody? rs).bind (ownDocument? host)
    let db := s.timed.store.database
    let learnt := (s.learn host rs).timed
    (∀ d, own = some d → ¬SpeaksOfLocal db d →
      learnt.store.hostById host.id =
        .ok (host.merge (d.toIdentity "" 0) host.hostname
          (s.timed.clock (s.timed.writes + rs.length)))) ∧
      ((∀ d, own = some d → SpeaksOfLocal db d) → learnt.store.database.hosts = db.hosts) ∧
      ∀ h, learnt.store.hostById host.id = .ok h → plan.seeker.GossipSpares host learnt h →
        (s.checkHost plan schedule host).timed.store.hostById host.id = .ok h := by
  intro rs own db learnt
  have hsound := TimedStore.sound_of_reachable hs hclock
  exact ⟨fun d hown foreign => hostById_learn hsound there isPeer hown foreign,
    fun refused => hosts_learn hsound refused,
    fun h hlearnt spares => hostById_checkHost hsound hlearnt spares⟩

/-- What a peer says of itself that has another internal address. -/
def movedAnswer : String :=
  "\x7b\"hostname\":\"b\",\"addresses\":\x7b\"internal\":\"10.0.0.9\"\x7d\x7d"

/-- A network on which every address answers, one of them with what the peer says of itself. -/
def oneGenuinePlan (genuine : String) : Plan where
  seeker :=
    { sampleSeeker with
      prober :=
        { sampleSeeker.prober with
          net :=
            { Probe.Net.unconnected with
              web := fun address _ _ =>
                .ok ⟨200, if address = genuine then movedAnswer else "hello"⟩ } } }
  candidates := .ok []
  workers := 1

theorem hostById_checkedHost :
    peerScheduler.timed.store.hostById checkedHost.id = .ok checkedHost :=
  Store.toOption_eq_some_iff.mp (by decide +kernel)

/-- The internal address answers first, and the host moves. -/
theorem checkHost_learns_from_first_answer_of_moved :
    peerScheduler.timed.store.hostById checkedHost.id = .ok checkedHost ∧
      checkedHost.isLocal = false ∧
      (peerScheduler.checkHost (oneGenuinePlan "10.0.0.2") inTurn
          checkedHost).timed.store.hostById checkedHost.id =
        .ok { checkedHost with
          internalAddress := "10.0.0.9"
          lastSeen := Store.nextSecond.1 } := by
  have hown : (firstBody? (results (oneGenuinePlan "10.0.0.2").seeker.prober checkedHost)).bind
      (ownDocument? checkedHost) = some ⟨"b", ⟨"10.0.0.9", ""⟩⟩ := by decide +kernel
  have hpeers : ∀ r ∈ peerScheduler.timed.store.database.hosts, r.isSelf = false := by
    decide +kernel
  have hsilent : ((oneGenuinePlan "10.0.0.2").seeker.prober.knownHosts
      checkedHost.publicAddress).toOption = none := by decide +kernel
  obtain ⟨hlearn, -, hstays⟩ := checkHost_learns_from_first_answer (s := peerScheduler) rfl
    (fun _ => Store.nextSecond.2) hostById_checkedHost rfl (oneGenuinePlan "10.0.0.2") inTurn
  refine ⟨hostById_checkedHost, rfl, hstays _ (hlearn _ hown ?_) ?_⟩
  · rintro ⟨self, mem, isSelf, -⟩
    rw [hpeers self mem] at isSelf
    cases isSelf
  · intro ds hds
    rw [hds] at hsilent
    cases hsilent

/-- The internal address answers with something else. What the peer says of itself at its public
address is not learnt then: the host is as it was, and not seen since. -/
theorem checkHost_overlooks_second_answer :
    peerScheduler.timed.store.hostById checkedHost.id = .ok checkedHost ∧
      (∀ r ∈ peerScheduler.timed.store.database.hosts, r.isSelf = false) ∧
      (∃ r ∈ results (oneGenuinePlan "1.2.3.4").seeker.prober checkedHost,
        CheckResult.isAnswer r = true ∧ r.body = some movedAnswer) ∧
      ownDocument? checkedHost movedAnswer = some ⟨"b", ⟨"10.0.0.9", ""⟩⟩ ∧
      checkedHost.lastSeen.Before Store.nextSecond.1 ∧
      (peerScheduler.checkHost (oneGenuinePlan "1.2.3.4") inTurn
        checkedHost).timed.store.hostById checkedHost.id = .ok checkedHost := by
  refine ⟨hostById_checkedHost, by decide +kernel, by decide +kernel, by decide +kernel,
    by decide, ?_⟩
  exact Store.toOption_eq_some_iff.mp (by decide +kernel)

end Scheduler
end PeerHealth
