import PeerHealth.Proofs.Scheduler.Jobs

/-! Ticks. Main statement: whatever peers do and in whatever order jobs take their turns, each peer
listed on a tick gets one check on each of its addresses over each protocol, and no other host gets
any. -/

namespace PeerHealth.Scheduler

open Store (Database HostRow Bucket Tally tallied)

/-- Hosts for which no job is under way get one each. -/
theorem dispatchAll_of_idle (s : Scheduler) {hosts : List Host}
    (hidle : ∀ h ∈ hosts, h.id ∉ s.inFlight) (hdistinct : (hosts.map (·.id)).Nodup) :
    (s.dispatchAll hosts).1 = hosts.length ∧ (s.dispatchAll hosts).2.timed = s.timed ∧
      (s.dispatchAll hosts).2.jobs = s.jobs ++ hosts.map fun h => { host := h } := by
  induction hosts generalizing s with
  | nil => exact ⟨rfl, rfl, (List.append_nil _).symm⟩
  | cons host hosts ih =>
    rw [List.map_cons, List.nodup_cons] at hdistinct
    have hnew : s.inFlight.contains host.id = false := by
      simpa using hidle host (List.mem_cons_self ..)
    let next : Scheduler :=
      { s with inFlight := host.id :: s.inFlight, jobs := s.jobs ++ [{ host }] }
    have hnext : s.dispatch host = (true, next) := if_neg (by rw [hnew]; exact Bool.false_ne_true)
    have hrest : ∀ h ∈ hosts, h.id ∉ next.inFlight := by
      intro h hh
      rw [List.mem_cons, not_or]
      refine ⟨fun hid => hdistinct.1 ?_, hidle h (List.mem_cons_of_mem _ hh)⟩
      exact hid ▸ List.mem_map_of_mem hh
    obtain ⟨hcount, htimed, hjobs⟩ := ih next hrest hdistinct.2
    simp only [dispatchAll, hnext, hcount, htimed, hjobs, if_true]
    exact ⟨Nat.add_comm _ _, rfl, by simp [next]⟩

/-- The hosts are the peers in the tables, each of them once. -/
structure Listed (db : Database) (hosts : List Host) : Prop where
  ids : (hosts.map (·.id)).Perm ((db.hosts.filter (·.isPeer)).map (·.id))
  peers : ∀ h ∈ hosts, h.isLocal = false

theorem Listed.nodup_ids {db : Database} {hosts : List Host} (h : Listed db hosts)
    (hdb : db.HostsSound) : (hosts.map (·.id)).Nodup :=
  h.ids.nodup_iff.mpr (hdb.distinct.filter _).nodup_ids

theorem Listed.exists_row {db : Database} {hosts : List Host} (h : Listed db hosts) {host : Host}
    (hmem : host ∈ hosts) : ∃ r ∈ db.hosts, r.isPeer = true ∧ r.id = host.id := by
  obtain ⟨r, hr, hid⟩ := List.mem_map.mp (h.ids.mem_iff.mp (List.mem_map_of_mem hmem))
  exact ⟨r, (List.mem_filter.mp hr).1, (List.mem_filter.mp hr).2, hid⟩

/-- The listing without the local host is of all peers, whatever the tables hold. -/
theorem listed_of_hosts {store : Store} {hosts : List Host} (h : store.hosts {} = .ok hosts) :
    Listed store.database hosts := by
  let peers := store.database.hosts.filter (·.isPeer)
  let listed := Store.inOrder (fun r s : HostRow => r.hostname ≤ s.hostname) peers
  have hperm : listed.Perm peers := Store.inOrder_perm _ _
  have hadmits : ({} : Store.HostFilter).admits = (·.isPeer) := by
    funext r
    simp [Store.HostFilter.admits]
  rw [Store.hosts, hadmits, Store.readAll_eq_ok_iff] at h
  have htells : List.Forall₂ HostRow.Tells listed hosts :=
    h.imp fun _ _ => HostRow.read_eq_ok_iff.mp
  refine ⟨?_, fun host hhost => ?_⟩
  · rw [Store.map_eq_of_tells htells fun r h htells => htells.id]
    exact hperm.map _
  · have hlocal : hosts.map (·.isLocal) = listed.map (!·.isPeer) :=
      Store.map_eq_of_tells htells fun r h htells => htells.isLocal_eq
    obtain ⟨r, hr, heq⟩ := List.mem_map.mp (hlocal ▸ List.mem_map_of_mem hhost)
    rw [← heq, (List.mem_filter.mp (hperm.mem_iff.mp hr)).2]
    rfl

/-- The listing without the local host can be read, and it is of all peers. -/
theorem exists_listed {store : Store} (hdb : store.database.HostsSound) :
    ∃ hosts, store.hosts {} = .ok hosts ∧ Listed store.database hosts := by
  obtain ⟨_, hosts, -, hhosts, -⟩ := Store.exists_listing hdb {}
  exact ⟨hosts, hhosts, listed_of_hosts hhosts⟩

/-- A tick looks for peers, and then each one listed gets a job. -/
theorem tick_eq {s : Scheduler} {plan : Plan} {schedule : Schedule} {found : TimedStore}
    {hosts : List Host}
    (hfound : (plan.seeker.discover schedule plan.candidates s.timed).2 = found)
    (hlisted : found.store.hosts {} = .ok hosts) :
    ∃ alarm, s.tick plan schedule = { s with timed := found, alarm }.dispatchAll hosts := by
  unfold tick
  generalize plan.seeker.discover schedule plan.candidates s.timed = discovered at hfound ⊢
  obtain ⟨answer, timed⟩ := discovered
  obtain rfl : timed = found := hfound
  rcases answer with (reason | fault) | count
  · exact ⟨s.alarm, by simp only [hlisted]⟩
  · exact ⟨s.alarm.hear (.failed fault), by simp only [hear, hlisted]⟩
  · exact ⟨s.alarm, by simp only [hlisted]⟩

section Counts

variable {hosts : List Host}

theorem nodup_due (hdistinct : (hosts.map (·.id)).Nodup) : (hosts.flatMap dueOf).Nodup := by
  refine List.nodup_flatMap.mpr ⟨fun h _ => nodup_dueOf h, ?_⟩
  refine (List.pairwise_map.mp hdistinct).imp ?_
  intro h h' hne b hb hb'
  exact hne ((mem_dueOf.mp hb).1.trans (mem_dueOf.mp hb').1.symm)

/-- A bucket is due once if it is that of a listed host and one of its addresses. -/
theorem count_due (hdistinct : (hosts.map (·.id)).Nodup) (b : Bucket) :
    (hosts.flatMap dueOf).count b =
      if hosts.any fun h => h.id = b.host && (h.address? b.network).isSome then 1 else 0 := by
  rw [(nodup_due hdistinct).count]
  refine if_congr ?_ rfl rfl
  simp only [List.mem_flatMap, mem_dueOf, List.any_eq_true, Bool.and_eq_true, decide_eq_true_eq,
    Option.isSome_iff_ne_none]

theorem countP_due_eq_zero {id : Int} (h : ∀ host ∈ hosts, host.id ≠ id) :
    (hosts.flatMap dueOf).countP (fun b => decide (b.host = id)) = 0 := by
  refine List.countP_eq_zero.mpr fun b hb => ?_
  obtain ⟨host, hhost, hb⟩ := List.mem_flatMap.mp hb
  rw [decide_eq_true_eq, ← (mem_dueOf.mp hb).1]
  exact h host hhost

theorem countP_due {host : Host} (hdistinct : (hosts.map (·.id)).Nodup) (hmem : host ∈ hosts) :
    (hosts.flatMap dueOf).countP (fun b => decide (b.host = host.id)) = 4 * addressCount host := by
  obtain ⟨earlier, later, rfl⟩ := List.append_of_mem hmem
  simp only [List.map_append, List.map_cons, List.nodup_append, List.nodup_cons] at hdistinct
  obtain ⟨-, ⟨hlater, -⟩, hearlier⟩ := hdistinct
  have hall : (dueOf host).countP (fun b => decide (b.host = host.id)) = (dueOf host).length :=
    List.countP_eq_length.mpr fun b hb => decide_eq_true (mem_dueOf.mp hb).1.symm
  rw [List.flatMap_append, List.flatMap_cons, List.countP_append, List.countP_append, hall,
    length_dueOf, countP_due_eq_zero, countP_due_eq_zero, Nat.zero_add, Nat.add_zero]
  · rintro h hh hid
    exact hlater (hid ▸ List.mem_map_of_mem hh)
  · rintro h hh
    exact hearlier _ (List.mem_map_of_mem hh) _ (List.mem_cons_self ..)

end Counts

/-- Since `before` each listed host has got one check on each of its addresses over each protocol,
and no other host has got any. -/
structure CheckedOnce (hosts : List Host) (before after : Store) : Prop where
  buckets : ∀ b : Bucket, (after.database.checksSince before.database.lastCheck b).length =
    if hosts.any fun h => h.id = b.host && (h.address? b.network).isSome then 1 else 0
  listed : ∀ h ∈ hosts, ∃ u, after.uptime h.id = .ok (some u) ∧
    u.total.total = before.totalChecks h.id + 4 * addressCount h
  others : ∀ r ∈ after.database.hosts, (∀ h ∈ hosts, h.id ≠ r.id) →
    ∃ u, after.uptime r.id = .ok (some u) ∧ u.total.total = before.totalChecks r.id

/-- Nothing has been done for jobs that have just been set up. -/
theorem underway_of_listed {s : Scheduler} {t : TimedStore} {hosts : List Host}
    {tallies : List Tally} (htimed : s.timed = t) (hsound : t.Sound)
    (htallied : t.store.database.Tallied tallies)
    (hjobs : s.jobs = hosts.map fun h => { host := h }) :
    Underway t.store.database tallies (hosts.flatMap dueOf) s [] := by
  subst htimed
  refine ⟨hsound, .of_eq rfl rfl, ?_, ⟨tallies, htallied, fun _ => rfl⟩, fun b => ?_, Int.le_refl _⟩
  · rw [hjobs, List.flatMap_map]
    exact .refl _
  · rw [List.count_nil, List.length_eq_zero_iff]
    refine List.filter_eq_nil_iff.mpr fun r hr => ?_
    have hnum := htallied.numbered r hr
    simp only [Bool.and_eq_true, decide_eq_true_eq, not_and]
    omega

/-- Once the jobs for listed hosts have ended, each of the checks that were due has been written. -/
theorem Underway.checkedOnce {start : Database} {before : Store} {tallies : List Tally}
    {hosts : List Host} {s : Scheduler} {done : List Bucket}
    (h : Underway start tallies (hosts.flatMap dueOf) s done) (hended : s.jobs = [])
    (hbefore : ∀ id, before.totalChecks id = tallied tallies fun b => decide (b.host = id))
    (hlast : start.lastCheck = before.database.lastCheck)
    (hdistinct : (hosts.map (·.id)).Nodup)
    (hthere : ∀ h ∈ hosts, ∃ r ∈ start.hosts, r.id = h.id) :
    CheckedOnce hosts before s.timed.store := by
  obtain ⟨tallies', htallied, hcount⟩ := h.tallies
  have hdone : done.Perm (hosts.flatMap dueOf) := by
    simpa only [hended, List.flatMap_nil, List.append_nil] using h.split
  have htotal : ∀ r ∈ s.timed.store.database.hosts,
      ∃ u, s.timed.store.uptime r.id = .ok (some u) ∧
        u.total.total = before.totalChecks r.id +
          (hosts.flatMap dueOf).countP fun b => decide (b.host = r.id) := by
    intro r hr
    obtain ⟨u, hu, hsum⟩ := Store.uptime_eq h.sound.hosts htallied hr
    exact ⟨u, hu, by rw [hsum, hcount, hdone.countP_eq, hbefore]⟩
  refine ⟨fun b => ?_, fun host hhost => ?_, fun r hr hnot => ?_⟩
  · rw [← hlast, h.since, hdone.count_eq, count_due hdistinct]
  · obtain ⟨r0, hr0, hid0⟩ := hthere host hhost
    obtain ⟨r, hr, hid⟩ := h.stay.hosts r0 hr0
    have hcounts := htotal r hr
    rwa [hid, hid0, countP_due hdistinct hhost] at hcounts
  · have hcounts := htotal r hr
    rwa [countP_due_eq_zero hnot, Nat.add_zero] at hcounts

/-- When no job is under way, a tick sets up one for each peer in the store, once it has looked for
peers. -/
theorem exists_underway_tick {s : Scheduler} {tallies : List Tally} (hsound : s.timed.Sound)
    (htallied : s.timed.store.database.Tallied tallies) (hidle : s.inFlight = [])
    (hjobs : s.jobs = []) (plan : Plan) (schedule : Schedule) :
    let found := (plan.seeker.discover schedule plan.candidates s.timed).2.store
    ∃ hosts, found.hosts {} = .ok hosts ∧ Listed found.database hosts ∧
      (s.tick plan schedule).1 = hosts.length ∧
      Underway found.database tallies (hosts.flatMap dueOf) (s.tick plan schedule).2 [] := by
  intro found
  have hfound := hosted_discover hsound plan.seeker schedule plan.candidates
  obtain ⟨hosts, hhosts, hlisted⟩ := exists_listed hfound.sound.hosts
  obtain ⟨alarm, htick⟩ := tick_eq rfl hhosts
  obtain ⟨hcount, htimed, hset⟩ := dispatchAll_of_idle { s with
      timed := (plan.seeker.discover schedule plan.candidates s.timed).2, alarm }
    (fun h _ => by simp [hidle]) (hlisted.nodup_ids hfound.sound.hosts)
  rw [← htick] at hcount htimed hset
  rw [hjobs, List.nil_append] at hset
  exact ⟨hosts, hhosts, hlisted, hcount,
    underway_of_listed htimed hfound.sound (htallied.of_hostsKept hfound.kept) hset⟩

/-- A tick looks for peers and sets up a job for each peer that is in the store then. However the
jobs take their turns, and whatever peers do, by the end of them each listed host has got one check
on each of its addresses over each protocol, as long as checks can be written and no host is
deleted. No other host has got any: neither the local one nor those found meanwhile. -/
theorem tick_checks_each_listed_host {plan : Plan} {schedule : Schedule} {s : Scheduler}
    {writes : List Store.Write} {ms : List Move}
    (hs : s.timed.store = ({} : Store).after writes) (hclock : ∀ n, (s.timed.clock n).Valid)
    (hidle : s.inFlight = []) (hjobs : s.jobs = [])
    (hallowed : (s.tick plan schedule).2.allowsAll ms = true)
    (hended : ((s.tick plan schedule).2.moves ms).jobs = []) :
    let found := (plan.seeker.discover schedule plan.candidates s.timed).2.store
    let after := ((s.tick plan schedule).2.moves ms).timed.store
    ∃ hosts, found.hosts {} = .ok hosts ∧ Listed found.database hosts ∧
      (s.tick plan schedule).1 = hosts.length ∧ CheckedOnce hosts s.timed.store after ∧
      ∀ r ∈ after.database.hosts, (r.isSelf = true ∨ found.database.lastHost < r.id) →
        ∀ h ∈ hosts, h.id ≠ r.id := by
  intro found after
  have hsound := TimedStore.sound_of_reachable hs hclock
  have hfound := hosted_discover hsound plan.seeker schedule plan.candidates
  obtain ⟨tallies, htallied⟩ : ∃ tallies, s.timed.store.database.Tallied tallies := by
    rw [hs]
    exact Store.tallied_after Store.hostsSound_empty Store.tallied_empty writes
  have howned : s.timed.store.database.Owned := by
    rw [hs]
    exact Store.owned_after Store.hostsSound_empty Store.owned_empty writes
  obtain ⟨hosts, hhosts, hlisted, hcount, hstart⟩ :=
    exists_underway_tick hsound htallied hidle hjobs plan schedule
  have hdistinct := hlisted.nodup_ids hfound.sound.hosts
  obtain ⟨done, hend⟩ := hstart.moves (nodup_due hdistinct) hallowed
  refine ⟨hosts, hhosts, hlisted, hcount, ?_, fun r hr hother h hh => ?_⟩
  · refine hend.checkedOnce hended (Store.totalChecks_eq hsound.hosts howned htallied)
      hfound.kept.lastCheck hdistinct fun h hh => ?_
    obtain ⟨r, hr, -, hid⟩ := hlisted.exists_row hh
    exact ⟨r, hr, hid⟩
  · obtain ⟨r0, hr0, hpeer, hid⟩ := hlisted.exists_row hh
    exact hid ▸ hend.stay.ne_of_isPeer hfound.sound.hosts hr0 hpeer hr hother

/-- What the node at an address says of itself. -/
def sampleAnswer : String :=
  "\x7b\"hostname\":\"b\",\"addresses\":\x7b\"internal\":\"10.0.0.2\"\x7d\x7d"

def samplePlan : Plan where
  seeker :=
    { sampleSeeker with
      prober :=
        { sampleSeeker.prober with
          net :=
            { Probe.Net.unconnected with
              web := fun address _ _ =>
                if address = "10.0.0.2" then .ok ⟨200, sampleAnswer⟩
                else .error "no connection" } } }
  candidates := .ok ["10.0.0.1", "10.0.0.2"]
  workers := 2

def sampleScheduler : Scheduler := { timed := sampleStore }

/-- Of two candidates one answers, and gets a job, which checks its one address over each
protocol. -/
theorem tick_checks_the_found_host :
    (sampleScheduler.tick samplePlan inTurn).1 = 1 ∧ ∃ hosts,
      (samplePlan.seeker.discover inTurn samplePlan.candidates
        sampleScheduler.timed).2.store.hosts {} = .ok hosts ∧
      hosts.map addressCount = [1] ∧ (∀ h ∈ hosts, h.isLocal = false) ∧
      CheckedOnce hosts sampleScheduler.timed.store
        ((sampleScheduler.tick samplePlan inTurn).2.finishJobs samplePlan inTurn).timed.store := by
  have hempty : sampleScheduler.timed.store = ({} : Store).after [] := rfl
  have hone : (sampleScheduler.tick samplePlan inTurn).1 = 1 := by decide +kernel
  have hwaiting : ∀ job ∈ (sampleScheduler.tick samplePlan inTurn).2.jobs,
      job.phase = .waiting := by decide +kernel
  have haddresses : ((samplePlan.seeker.discover inTurn samplePlan.candidates
      sampleScheduler.timed).2.store.hosts {}).toOption.map (·.map addressCount) = some [1] := by
    decide +kernel
  let ms := turns samplePlan inTurn (sampleScheduler.tick samplePlan inTurn).2.jobs
  have hallowed : (sampleScheduler.tick samplePlan inTurn).2.allowsAll ms = true := by
    decide +kernel
  have hended : ((sampleScheduler.tick samplePlan inTurn).2.moves ms).jobs = [] := by
    decide +kernel
  obtain ⟨hosts, hhosts, hlisted, -, hchecked, -⟩ :=
    tick_checks_each_listed_host hempty (fun _ => Time.epoch.2) rfl rfl hallowed hended
  rw [hhosts] at haddresses
  refine ⟨hone, hosts, hhosts, Option.some.inj haddresses, hlisted.peers, ?_⟩
  rw [← moves_turns samplePlan inTurn rfl hwaiting]
  exact hchecked

end PeerHealth.Scheduler
