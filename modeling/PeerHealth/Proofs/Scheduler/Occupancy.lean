import PeerHealth.Proofs.Scheduler.Loop
import PeerHealth.Proofs.Scheduler.Ticks

/-! Which hosts are under way. Main statement: however the steps of the loop and of the jobs fall,
a host is under way as long as its one job has not ended, no more jobs have permits than there are,
and a tick sets up a job for each peer listed on it that has none. -/

namespace PeerHealth.Scheduler

open Service (Run Step)

/-- How many jobs have a permit. -/
def Service.holders (s : Service) : Nat := s.errands.countP (·.progress.hasPermit)

/-- The hosts under way are those of the jobs, each once, and each permit is left or with a job. -/
structure Service.Occupied (permits : Nat) (s : Service) : Prop where
  flight : s.inFlight.Perm (s.errands.map (·.host.id))
  distinct : s.inFlight.Nodup
  permits : s.free + s.holders = permits

/-- What a step does to the jobs: nothing, or one is set up, gets on, or ends. -/
inductive Service.Shift (s t : Service) (notices : List Notice) : Prop
  | none : t.errands = s.errands → t.inFlight = s.inFlight → t.free = s.free →
      (∀ host, .setUp host ∉ notices) → Shift s t notices
  | setUp {host : Host} : notices = [.setUp host] → host.id ∉ s.inFlight →
      t.errands = s.errands ++ [⟨host, .waiting⟩] → t.inFlight = host.id :: s.inFlight →
      t.free = s.free → Shift s t notices
  | proceed {earlier later : List Errand} {host : Host} {before after : Progress} :
      s.errands = earlier ++ ⟨host, before⟩ :: later →
      t.errands = earlier ++ ⟨host, after⟩ :: later → t.inFlight = s.inFlight →
      t.free + after.hasPermit.toNat = s.free + before.hasPermit.toNat →
      (∀ host, .setUp host ∉ notices) → Shift s t notices
  | leave {earlier later : List Errand} {host : Host} :
      s.errands = earlier ++ ⟨host, .leaving⟩ :: later → t.errands = earlier ++ later →
      t.inFlight = s.inFlight.erase host.id → t.free = s.free →
      (∀ host, .setUp host ∉ notices) → Shift s t notices

section Steps

variable {s t : Service} {notices : List Notice}

/-- A job among the others. -/
theorem exists_split {errands : List Errand} {i : Nat} {e : Errand} (h : errands[i]? = some e) :
    ∃ earlier later, errands = earlier ++ e :: later ∧
      (∀ e', errands.set i e' = earlier ++ e' :: later) ∧
      errands.eraseIdx i = earlier ++ later := by
  obtain ⟨hlt, rfl⟩ := List.getElem?_eq_some_iff.mp h
  refine ⟨errands.take i, errands.drop (i + 1), ?_, fun e' => ?_,
    List.eraseIdx_eq_take_drop_succ ..⟩
  · rw [List.cons_getElem_drop_succ, List.take_append_drop]
  · exact List.set_eq_take_append_cons_drop.trans (if_pos hlt)

theorem Service.Step.shift (h : Step s notices t) : s.Shift t notices := by
  cases h with
  | setUp hstage hnot => exact .setUp rfl hnot rfl rfl rfl
  | begin herrand hfree =>
    obtain ⟨earlier, later, hsplit, hset, -⟩ := exists_split herrand
    refine .proceed hsplit (hset _) rfl ?_ (by simp)
    show s.free - 1 + 1 = s.free + 0
    omega
  | check prober herrand =>
    obtain ⟨earlier, later, hsplit, hset, -⟩ := exists_split herrand
    exact .proceed hsplit (hset _) rfl rfl (by simp)
  | @work i host duty duties seeker j herrand =>
    obtain ⟨earlier, later, hsplit, hset, -⟩ := exists_split herrand
    refine .proceed hsplit (hset _) rfl rfl fun host => ?_
    cases duty.event? <;> simp
  | @finish i host progress herrand hne =>
    obtain ⟨earlier, later, hsplit, hset, -⟩ := exists_split herrand
    refine .proceed hsplit (hset _) rfl ?_ (by simp)
    show (if progress.hasPermit then s.free + 1 else s.free) + 0 = _
    cases progress.hasPermit <;> rfl
  | leave herrand =>
    obtain ⟨earlier, later, hsplit, -, herase⟩ := exists_split herrand
    exact .leave hsplit herase rfl rfl (by simp)
  | _ => exact .none rfl rfl rfl (by simp)

theorem Service.Occupied.start (timed : TimedStore) (workers : Nat) :
    (Service.start timed workers).Occupied (max workers 1) := ⟨.refl _, .nil, rfl⟩

/-- The permits of one job and of the others. -/
theorem Service.holders_eq {earlier later : List Errand} {host : Host} {progress : Progress}
    (h : s.errands = earlier ++ ⟨host, progress⟩ :: later) :
    s.holders =
      progress.hasPermit.toNat + (earlier ++ later).countP (·.progress.hasPermit) := by
  simp only [holders, h, List.countP_append, List.countP_cons]
  cases progress <;> simp [Progress.hasPermit] <;> omega

theorem Service.Occupied.shift {permits : Nat} (hs : s.Occupied permits) (h : s.Shift t notices) :
    t.Occupied permits := by
  obtain ⟨hflight, hdistinct, hpermits⟩ := hs
  cases h with
  | none herrands hsame hfree =>
    refine ⟨?_, ?_, ?_⟩
    · rwa [hsame, herrands]
    · rwa [hsame]
    · rwa [hfree, holders, herrands]
  | @setUp host _ hnot herrands hnew hfree =>
    refine ⟨?_, ?_, ?_⟩
    · rw [hnew, herrands, List.map_append]
      exact (hflight.cons host.id).trans (List.perm_append_singleton ..).symm
    · rw [hnew]
      exact List.nodup_cons.mpr ⟨hnot, hdistinct⟩
    · rw [hfree, holders, herrands, List.countP_append]
      exact hpermits
  | @proceed earlier later host before after hbefore hafter hsame hfree =>
    refine ⟨?_, ?_, ?_⟩
    · rw [hbefore, List.map_append, List.map_cons] at hflight
      rwa [hsame, hafter, List.map_append, List.map_cons]
    · rwa [hsame]
    · rw [holders_eq hbefore] at hpermits
      rw [holders_eq hafter]
      omega
  | @leave earlier later host hbefore hafter hgone hfree =>
    refine ⟨?_, ?_, ?_⟩
    · rw [hbefore, List.map_append, List.map_cons] at hflight
      have herased := (hflight.trans List.perm_middle).erase host.id
      rwa [List.erase_cons_head, ← List.map_append, ← hafter, ← hgone] at herased
    · -- each number is there once, so none is left of the host's
      rw [hgone]
      exact hdistinct.erase _
    · rw [holders_eq hbefore, ← hafter] at hpermits
      rw [hfree, ← hpermits, Progress.hasPermit]
      exact congrArg _ (Nat.zero_add _).symm

theorem Service.Run.occupied {timed : TimedStore} {workers : Nat} {trace : List Notice}
    (h : Run (Service.start timed workers) trace s) : s.Occupied (max workers 1) :=
  h.invariant (.start timed workers) fun hbefore hstep => hbefore.shift hstep.shift

theorem Service.Occupied.mem_inFlight {permits : Nat} (h : s.Occupied permits) {id : Int} :
    id ∈ s.inFlight ↔ ∃ e ∈ s.errands, e.host.id = id := by
  rw [h.flight.mem_iff, List.mem_map]

/-- What a step tells of jobs is so. -/
structure Service.Dispatches (s : Service) (notices : List Notice) (t : Service) : Prop where
  setUp : ∀ host, .setUp host ∈ notices → (∀ e ∈ s.errands, e.host.id ≠ host.id) ∧
    t.errands = s.errands ++ [⟨host, .waiting⟩]
  passedOver : ∀ host, .passedOver host ∈ notices → ∃ e ∈ s.errands, e.host.id = host.id
  /-- No job comes from elsewhere. -/
  others : (∀ host, .setUp host ∉ notices) →
    (t.errands.map (·.host)).Sublist (s.errands.map (·.host))

theorem Service.Step.mem_of_passedOver (h : Step s notices t) {host : Host}
    (hmem : .passedOver host ∈ notices) : host.id ∈ s.inFlight := by
  cases h with
  | passOver hstage hflight =>
    obtain rfl := Notice.passedOver.inj (List.mem_singleton.mp hmem)
    exact hflight
  | @work i host duty duties seeker j herrand => cases duty.event? <;> simp at hmem
  | _ => simp at hmem

theorem Service.Occupied.dispatches {permits : Nat} (hs : s.Occupied permits)
    (h : Step s notices t) : s.Dispatches notices t := by
  refine ⟨fun host hmem => ?_, fun host hmem => hs.mem_inFlight.mp (h.mem_of_passedOver hmem),
    fun hnone => ?_⟩
  · cases h.shift with
    | setUp hnotices hnot herrands =>
      obtain rfl := Notice.setUp.inj (List.mem_singleton.mp (hnotices ▸ hmem))
      exact ⟨fun e he hid => hnot (hs.mem_inFlight.mpr ⟨e, he, hid⟩), herrands⟩
    | none _ _ _ hnone | proceed _ _ _ _ hnone | leave _ _ _ _ hnone =>
      exact absurd hmem (hnone host)
  · cases h.shift with
    | setUp hnotices => exact absurd (hnotices ▸ List.mem_singleton_self _) (hnone _)
    | none herrands => rw [herrands]
    | proceed hbefore hafter =>
      rw [hbefore, hafter, List.map_append, List.map_append, List.map_cons, List.map_cons]
    | leave hbefore hafter =>
      rw [hbefore, hafter, List.map_append, List.map_append, List.map_cons]
      exact (List.Sublist.refl _).append (List.sublist_cons_self ..)

/-! ### The hosts of a tick -/

/-- The host that the loop has seen to. -/
def Notice.seenTo? : Notice → Option Host
  | .setUp host | .passedOver host => some host
  | .heard _ | .listed _ | .dispatched => none

theorem Service.Step.seesTo (h : Step s notices t) {hosts : List Host}
    (hstage : s.stage = .dispatching hosts) (hnot : .dispatched ∉ notices) :
    ∃ rest, t.stage = .dispatching rest ∧ hosts = notices.filterMap Notice.seenTo? ++ rest := by
  cases h with
  | setUp hat =>
    cases hstage.symm.trans hat
    exact ⟨_, rfl, rfl⟩
  | passOver hat =>
    cases hstage.symm.trans hat
    exact ⟨_, rfl, rfl⟩
  | endTick => exact absurd (List.mem_singleton_self _) hnot
  | @work i host duty duties seeker j herrand =>
    refine ⟨hosts, hstage, ?_⟩
    cases duty.event? <;> simp [Notice.seenTo?]
  | begin | check | finish | leave | write => exact ⟨hosts, hstage, rfl⟩
  | seek _ _ hat => cases hstage.symm.trans hat
  | endRefresh _ hat => cases hstage.symm.trans hat
  | _ hat => cases hstage.symm.trans hat

/-- Until it has seen to all, the loop has seen to the first of the listed hosts. -/
theorem Service.Run.seesTo {trace : List Notice} (h : Run s trace t) {hosts : List Host}
    (hstage : s.stage = .dispatching hosts) (hnot : .dispatched ∉ trace) :
    ∃ rest, t.stage = .dispatching rest ∧ hosts = trace.filterMap Notice.seenTo? ++ rest := by
  induction h with
  | refl => exact ⟨hosts, hstage, rfl⟩
  | tail _ hstep ih =>
    rw [List.mem_append, not_or] at hnot
    obtain ⟨rest, hrest, hsplit⟩ := ih hnot.1
    obtain ⟨rest', hrest', hsplit'⟩ := hstep.seesTo hrest hnot.2
    exact ⟨rest', hrest', by rw [hsplit, hsplit', List.filterMap_append, List.append_assoc]⟩

theorem Service.Step.lists {hosts : List Host} (h : Step s [.listed hosts] t) :
    s.timed.store.hosts {} = .ok hosts ∧ t.stage = .dispatching hosts := by
  generalize hnotices : [Notice.listed hosts] = notices at h
  cases h with
  | list _ hhosts =>
    obtain rfl := Notice.listed.inj (List.cons.inj hnotices).1
    exact ⟨hhosts, rfl⟩
  | @work i host duty => cases hevent : duty.event? <;> simp [hevent] at hnotices
  | _ => simp at hnotices

theorem Service.Step.endsTick (h : Step s [.dispatched] t) : s.stage = .dispatching [] := by
  generalize hnotices : [Notice.dispatched] = notices at h
  cases h with
  | endTick hstage => exact hstage
  | @work i host duty => cases hevent : duty.event? <;> simp [hevent] at hnotices
  | _ => simp at hnotices

/-- A tick sees to each listed host, once and in order. -/
theorem Service.Run.seenTo {u v : Service} {hosts : List Host} {during : List Notice}
    (hlist : Step s [.listed hosts] t) (h : Run t during u) (hnot : .dispatched ∉ during)
    (hend : Step u [.dispatched] v) :
    Listed s.timed.store.database hosts ∧ during.filterMap Notice.seenTo? = hosts := by
  obtain ⟨hhosts, hstage⟩ := hlist.lists
  obtain ⟨rest, hrest, hsplit⟩ := h.seesTo hstage hnot
  obtain rfl : rest = [] := by simpa using hrest.symm.trans hend.endsTick
  exact ⟨listed_of_hosts hhosts, by rw [hsplit, List.append_nil]⟩

/-- However the steps of the loop and of its jobs fall, whatever they find and however the hosts
change meanwhile: no host has two jobs, the hosts under way are those with a job that has not
ended, and no more jobs have permits than may run at a time. A job is set up for a host only if
there is none for it, a host is passed over only if there is one, and from the listing to the end
of a tick each peer listed is seen to in one of these ways. -/
theorem each_host_has_one_job {timed : TimedStore} {workers : Nat} {trace : List Notice}
    (h : Run (Service.start timed workers) trace s) :
    (s.errands.map (·.host.id)).Nodup ∧
    (∀ id, id ∈ s.inFlight ↔ ∃ e ∈ s.errands, e.host.id = id) ∧
    s.holders ≤ max workers 1 ∧
    (∀ notices t, Step s notices t → s.Dispatches notices t) ∧
    ∀ hosts t during u v, Step s [.listed hosts] t → Run t during u → .dispatched ∉ during →
      Step u [.dispatched] v →
      Listed s.timed.store.database hosts ∧ during.filterMap Notice.seenTo? = hosts := by
  have hs := h.occupied
  refine ⟨hs.flight.nodup_iff.mp hs.distinct, fun id => hs.mem_inFlight, ?_,
    fun notices t hstep => hs.dispatches hstep,
    fun hosts t during u v hlist hduring hnot hend => hduring.seenTo hlist hnot hend⟩
  have hpermits := hs.permits
  omega

end Steps

def listedPeer : Host where
  id := 1
  hostname := "b"
  internalAddress := "10.0.0.2"
  publicAddress := ""
  discoveredAddress := ""
  servicePort := 5500
  firstSeen := Time.epoch.1
  lastSeen := Time.epoch.1
  isLocal := false

/-- A store with one peer. -/
def peerStore : TimedStore :=
  (sampleStore.write fun store now => store.upsertHost now
    { hostname := "b", internalAddress := "10.0.0.2", servicePort := 5500 }).2

/-- The peer's job is running. -/
def peerService (stage : Stage) : Service where
  timed := peerStore
  inFlight := [listedPeer.id]
  free := 1
  stage
  errands := [⟨listedPeer, .checking⟩]

/-- The peer gets a job on a tick. -/
theorem run_peerService :
    Run (Service.start peerStore 2) [.listed [listedPeer], .setUp listedPeer, .dispatched]
      (peerService .idle) := by
  have hhosts : peerStore.store.hosts {} = .ok [listedPeer] := by decide +kernel
  have hlisted : Run (Service.start peerStore 2) [.listed [listedPeer]]
      { Service.start peerStore 2 with stage := .dispatching [listedPeer] } :=
    ((Step.beginTick rfl).run.tail (.unresolved rfl)).tail (.list rfl hhosts)
  exact ((hlisted.tail (.setUp rfl List.not_mem_nil)).tail (.endTick rfl)).tail
    (.begin (i := 0) rfl (by decide))

/-- The peer gets a job on one tick. On the next the job is running, and the peer is passed over. -/
theorem each_host_has_one_job_of_two_ticks :
    Run (Service.start peerStore 2) [.listed [listedPeer], .setUp listedPeer, .dispatched]
      (peerService .listing) ∧
    (∀ id, id ∈ (peerService .listing).inFlight ↔ id = listedPeer.id) ∧
    (peerService .listing).holders = 1 ∧ (peerService .listing).holders ≤ 2 ∧
    Run (peerService (.dispatching [listedPeer])) [.passedOver listedPeer]
      (peerService (.dispatching [])) ∧
    Listed peerStore.store.database [listedPeer] := by
  have hhosts : peerStore.store.hosts {} = .ok [listedPeer] := by decide +kernel
  have hagain : Run (peerService .idle) [] (peerService .listing) :=
    (Step.beginTick rfl).run.tail (.unresolved rfl)
  have hlist : Step (peerService .listing) [.listed [listedPeer]]
      (peerService (.dispatching [listedPeer])) := .list rfl hhosts
  have hpassed : Run (peerService (.dispatching [listedPeer])) [.passedOver listedPeer]
      (peerService (.dispatching [])) := (Step.passOver rfl (by decide)).run
  obtain ⟨-, hflight, hholders, -, htick⟩ := each_host_has_one_job (run_peerService.trans hagain)
  obtain ⟨hlisted, -⟩ := htick _ _ _ _ _ hlist hpassed (by simp) (.endTick rfl)
  refine ⟨run_peerService.trans hagain, fun id => (hflight id).trans ?_, rfl, hholders, hpassed,
    hlisted⟩
  simp [peerService, eq_comm]

end PeerHealth.Scheduler
