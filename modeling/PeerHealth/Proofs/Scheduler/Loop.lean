import PeerHealth.Proofs.Scheduler.Jobs
import PeerHealth.Scheduler.Loop

/-! Runs of the loop and its jobs. Main statement: a tick, jobs that end one after the other, and
the loop from its start to its end are each one of the runs, that in which nothing comes between
their steps. -/

namespace PeerHealth.Scheduler

open Service (Run Step)

theorem Service.Step.run {s t : Service} {notices : List Notice} (h : Step s notices t) :
    Run s notices t := .single h

/-- The service whose jobs are other ones and those that the scheduler has set up. -/
def asService (c : Scheduler) (others : List Errand) (free : Nat) (stage : Stage) : Service where
  timed := c.timed
  alarm := c.alarm
  inFlight := c.inFlight
  free
  stage
  errands := others ++ c.jobs.map fun job => { host := job.host }

section Tick

variable {c : Scheduler} {others : List Errand} {free : Nat} {schedule : Schedule}

theorem run_search (seeker : Seeker) {attempts : List Attempt} (order : List Nat) :
    let search := Search.run seeker ⟨attempts, c.timed⟩ order
    Run (c.asService others free (.seeking attempts)) []
      ({ c with timed := search.timed }.asService others free (.seeking search.attempts)) := by
  induction order generalizing c attempts with
  | nil => exact .refl
  | cons i order ih =>
    let search := Search.advance seeker ⟨attempts, c.timed⟩ i
    have hstep : Run (c.asService others free (.seeking attempts)) []
        ({ c with timed := search.timed }.asService others free (.seeking search.attempts)) :=
      (Step.seek seeker i rfl).run
    exact hstep.trans ih

/-- The scheduler once it has looked for peers. -/
def found (c : Scheduler) : Except DiscoveryFault Nat × TimedStore → Scheduler
  | (.error (.store fault), timed) => { c with timed }.hear (.failed fault)
  | (.error (.unresolved _), timed) | (.ok _, timed) => { c with timed }

/-- The scheduler once it has listed the peers in its store. -/
def dispatchListed (c : Scheduler) : Scheduler :=
  match c.timed.store.hosts {} with
  | .error fault => c.hear (.failed fault)
  | .ok hosts => (c.dispatchAll hosts).2

theorem snd_tick (plan : Plan) (schedule : Schedule) (c : Scheduler) :
    (c.tick plan schedule).2 =
      (c.found (plan.seeker.discover schedule plan.candidates c.timed)).dispatchListed := by
  unfold tick dispatchListed
  generalize plan.seeker.discover schedule plan.candidates c.timed = discovered
  obtain ⟨(reason | fault) | count, timed⟩ := discovered <;>
    simp only [found, hear] <;> cases timed.store.hosts {} <;> rfl

variable (c others free)

/-- The loop looks for peers, and the alarm hears of it if the store cannot be read. -/
theorem run_discover {seeker : Seeker} (hdone : schedule.Completes seeker c.timed)
    (candidates : Except String (List String)) :
    ∃ trace, Run (c.asService others free .resolving) trace
      ((c.found (seeker.discover schedule candidates c.timed)).asService others free .listing) := by
  cases candidates with
  | error reason => exact ⟨_, (Step.unresolved rfl).run⟩
  | ok candidates =>
    cases hknown : knownHosts c.timed.store with
    | error fault =>
      simp only [Seeker.discover, hknown]
      exact ⟨_, (Step.unread rfl hknown).run.trans (Step.tellUnread rfl).run⟩
    | ok known =>
      simp only [Seeker.discover, hknown]
      exact ⟨_, ((Step.resolved rfl hknown).run.trans (run_search seeker _)).trans
        (Step.sought rfl (hdone _)).run⟩

/-- The loop sets up jobs for the listed hosts that have none. -/
theorem run_dispatchAll (hosts : List Host) :
    ∃ trace, Run (c.asService others free (.dispatching hosts)) trace
      ((c.dispatchAll hosts).2.asService others free (.dispatching [])) := by
  induction hosts generalizing c with
  | nil => exact ⟨_, .refl⟩
  | cons host hosts ih =>
    by_cases hmem : host.id ∈ c.inFlight
    · have hdispatch : c.dispatch host = (false, c) := if_pos (List.contains_iff_mem.mpr hmem)
      obtain ⟨trace, hrest⟩ := ih c
      simp only [dispatchAll, hdispatch]
      exact ⟨_, (Step.passOver rfl hmem).run.trans hrest⟩
    · have hdispatch : c.dispatch host =
          (true, { c with inFlight := host.id :: c.inFlight, jobs := c.jobs ++ [{ host }] }) :=
        if_neg fun h => hmem (List.contains_iff_mem.mp h)
      let next : Scheduler :=
        { c with inFlight := host.id :: c.inFlight, jobs := c.jobs ++ [{ host }] }
      have hset : Run (c.asService others free (.dispatching (host :: hosts))) [.setUp host]
          (next.asService others free (.dispatching hosts)) := by
        have hstep := Step.setUp (s := c.asService others free (.dispatching (host :: hosts))) rfl
          hmem
        simpa [asService, next] using hstep.run
      obtain ⟨trace, hrest⟩ := ih next
      simp only [dispatchAll, hdispatch]
      exact ⟨_, hset.trans hrest⟩

/-- The loop lists the peers and sets up jobs, or the alarm hears that they cannot be listed. -/
theorem run_dispatchListed :
    ∃ trace, Run (c.asService others free .listing) trace
      (c.dispatchListed.asService others free .idle) := by
  unfold dispatchListed
  cases hlisted : c.timed.store.hosts {} with
  | error fault => exact ⟨_, (Step.unlisted rfl hlisted).run.trans (Step.tellUnlisted rfl).run⟩
  | ok hosts =>
    obtain ⟨trace, hset⟩ := run_dispatchAll c others free hosts
    exact ⟨_, ((Step.list rfl hlisted).run.trans hset).trans (Step.endTick rfl).run⟩

/-- A tick is a run of the loop. -/
theorem run_tick {plan : Plan} (hdone : schedule.Completes plan.seeker c.timed) :
    ∃ trace, Run (c.asService others free .idle) trace
      ((c.tick plan schedule).2.asService others free .idle) := by
  obtain ⟨_, hfound⟩ := run_discover c others free hdone plan.candidates
  obtain ⟨_, hlisted⟩ := run_dispatchListed
    (c.found (plan.seeker.discover schedule plan.candidates c.timed)) others free
  rw [snd_tick]
  exact ⟨_, ((Step.beginTick rfl).run.trans hfound).trans hlisted⟩

end Tick

section Attempts

variable {search : Search} {seeker : Seeker} {schedule : Schedule}

theorem Search.run_of_finished (h : search.Finished) (order : List Nat) :
    Search.run seeker search order = search := by
  induction order with
  | nil => rfl
  | cons i order ih =>
    have hsame : Search.advance seeker search i = search := by
      unfold Search.advance
      split
      · rfl
      · rename_i attempt hattempt
        rw [h attempt (List.mem_of_getElem? hattempt)]
    rw [Search.run_cons, hsame, ih]

/-- Whom a peer knows is sought in the attempts that come of asking it. -/
theorem Seeker.expand_eq_run (peer : Host) (t : TimedStore) :
    (seeker.expand schedule peer t).2 =
      (Search.run seeker ⟨seeker.attemptsFrom peer t.store, t⟩
        (schedule (seeker.attemptsFrom peer t.store))).timed := by
  have hnone : ∀ order, t = (Search.run seeker ⟨[], t⟩ order).timed := fun order => by
    rw [Search.run_of_finished (fun _ h => absurd h List.not_mem_nil)]
  unfold Seeker.expand Seeker.attemptsFrom
  cases peer.address? .external with
  | none => exact hnone _
  | some address =>
    dsimp only
    cases seeker.prober.knownHosts address with
    | error fault => exact hnone _
    | ok ds =>
      cases knownHosts t.store with
      | error fault => exact hnone _
      | ok known => rfl

end Attempts

/-- The service with one job looked at among the others. -/
def withErrand (c : Scheduler) (before after : List Errand) (free : Nat) (stage : Stage)
    (e : Errand) : Service where
  timed := c.timed
  alarm := c.alarm
  inFlight := c.inFlight
  free
  stage
  errands := before ++ e :: after

section Jobs

variable {c : Scheduler} {before after : List Errand} {free : Nat} {stage : Stage} {e : Errand}
  {host : Host} {plan : Plan} {schedule : Schedule}

@[simp] theorem getElem?_withErrand (c : Scheduler) (before after : List Errand) (free : Nat)
    (stage : Stage) (e : Errand) :
    (c.withErrand before after free stage e).errands[before.length]? = some e := by
  simp [withErrand]

@[simp] theorem proceed_withErrand (progress : Progress) :
    (c.withErrand before after free stage e).proceed before.length host progress =
      c.withErrand before after free stage ⟨host, progress⟩ := by
  simp [Service.proceed, withErrand]

/-- A job does the next thing for its first duty. -/
theorem run_duty {seeker : Seeker} {j : Nat} {duty : Duty} {left : List Duty} {timed : TimedStore}
    (hevent : duty.event? = none) (hnext : duty.perform seeker j host c.timed = (left, timed))
    (duties : List Duty) :
    Run (c.withErrand before after free stage ⟨host, .working (duty :: duties)⟩) []
      ({ c with timed }.withErrand before after free stage ⟨host, .working (left ++ duties)⟩) := by
  have hjob := getElem?_withErrand c before after free stage ⟨host, .working (duty :: duties)⟩
  have hstep := (Step.work seeker j hjob).run
  rw [proceed_withErrand, hevent] at hstep
  change Run _ [] { Scheduler.withErrand c before after free stage
      ⟨host, .working ((duty.perform seeker j host c.timed).1 ++ duties)⟩ with
    timed := (duty.perform seeker j host c.timed).2 } at hstep
  rwa [hnext] at hstep

/-- A job tells the alarm what came of a write. -/
theorem run_tell (seeker : Seeker) (event : StorageEvent) (duties : List Duty) :
    Run (c.withErrand before after free stage ⟨host, .working (.tell event :: duties)⟩)
      [.heard event]
      ((c.hear event).withErrand before after free stage ⟨host, .working duties⟩) := by
  have hjob := getElem?_withErrand c before after free stage
    ⟨host, .working (.tell event :: duties)⟩
  have hstep := (Step.work seeker 0 hjob).run
  rw [proceed_withErrand] at hstep
  exact hstep

/-- A job records a check, and the alarm hears what came of it. -/
theorem run_record (seeker : Seeker) (result : CheckResult) (duties : List Duty) :
    Run (c.withErrand before after free stage ⟨host, .working (.task (.record result) :: duties)⟩)
      [.heard (recordEvent
        (c.timed.write fun store now => store.recordCheck now host.id result).1)]
      ((c.record host result).withErrand before after free stage ⟨host, .working duties⟩) := by
  have hnext : Duty.perform seeker 0 host c.timed (.task (.record result)) = _ := rfl
  exact (run_duty rfl hnext duties).trans (run_tell seeker _ duties)

/-- A job records what its peer says of itself, and the alarm hears what came of it. -/
theorem run_observe (seeker : Seeker) {body : String} {d : Wire.Document}
    (hread : Wire.Document.ofBytes? (Text.Utf8.encode body) = .ok d)
    (hname : d.hostname = host.hostname) (duties : List Duty) :
    Run (c.withErrand before after free stage ⟨host, .working (.task (.observe body) :: duties)⟩)
      [.heard (observeEvent
        (c.timed.write fun store now => store.upsertHost now (d.toIdentity "" 0)).1)]
      ((c.observe host body).withErrand before after free stage ⟨host, .working duties⟩) := by
  generalize hwrite : c.timed.write (fun store now =>
    store.upsertHost now (d.toIdentity "" 0)) = written
  have hobserve : c.observe host body =
      { c with timed := written.2 }.hear (observeEvent written.1) := by
    simp only [observe, hread, hname, if_true, hwrite]
  have hnext : Duty.perform seeker 0 host c.timed (.task (.observe body)) =
      ([.tell (observeEvent written.1)], written.2) := by
    simp only [Duty.perform, hread, hname, if_true, hwrite]
  rw [hobserve]
  exact (run_duty rfl hnext duties).trans (run_tell seeker _ duties)

theorem run_sought {attempts : List Attempt} (hdone : Search.Finished ⟨attempts, c.timed⟩)
    (seeker : Seeker) (duties : List Duty) :
    Run (c.withErrand before after free stage ⟨host, .working (.seek attempts :: duties)⟩) []
      (c.withErrand before after free stage ⟨host, .working duties⟩) := by
  have hall : attempts.all (·.untried.isEmpty) = true := by simpa [Search.Finished] using hdone
  have hnext : Duty.perform seeker 0 host c.timed (.seek attempts) = ([], c.timed) := if_pos hall
  exact run_duty rfl hnext duties

/-- A job tries those whom its peer knows. -/
theorem run_seek {seeker : Seeker} {attempts : List Attempt} {order : List Nat}
    (hdone : (Search.run seeker ⟨attempts, c.timed⟩ order).Finished) (duties : List Duty) :
    Run (c.withErrand before after free stage ⟨host, .working (.seek attempts :: duties)⟩) []
      ({ c with timed := (Search.run seeker ⟨attempts, c.timed⟩ order).timed }.withErrand before
        after free stage ⟨host, .working duties⟩) := by
  induction order generalizing c attempts with
  | nil => exact run_sought hdone seeker duties
  | cons i order ih =>
    by_cases hfinished : Search.Finished ⟨attempts, c.timed⟩
    · rw [Search.run_of_finished hfinished]
      exact run_sought hfinished seeker duties
    · have hall : ¬ attempts.all (·.untried.isEmpty) = true := by
        simpa [Search.Finished] using hfinished
      have hnext : Duty.perform seeker i host c.timed (.seek attempts) =
          ([.seek (Search.advance seeker ⟨attempts, c.timed⟩ i).attempts],
            (Search.advance seeker ⟨attempts, c.timed⟩ i).timed) := if_neg hall
      exact (run_duty rfl hnext duties).trans (ih hdone)

theorem run_perform (hdone : schedule.Completes plan.seeker c.timed) (task : Task)
    (duties : List Duty) :
    ∃ trace, Run (c.withErrand before after free stage ⟨host, .working (.task task :: duties)⟩)
      trace
      ((c.perform plan schedule host task).withErrand before after free stage
        ⟨host, .working duties⟩) := by
  cases task with
  | record result => exact ⟨_, run_record plan.seeker result duties⟩
  | observe body =>
    rw [perform]
    cases hread : Wire.Document.ofBytes? (Text.Utf8.encode body) with
    | error fault =>
      have hsame : c.observe host body = c := by simp only [observe, hread]
      have hnext : Duty.perform plan.seeker 0 host c.timed (.task (.observe body)) =
          ([], c.timed) := by
        simp only [Duty.perform, hread]
      rw [hsame]
      exact ⟨_, run_duty rfl hnext duties⟩
    | ok d =>
      by_cases hname : d.hostname = host.hostname
      · exact ⟨_, run_observe plan.seeker hread hname duties⟩
      · have hsame : c.observe host body = c := by simp only [observe, hread, hname, if_false]
        have hnext : Duty.perform plan.seeker 0 host c.timed (.task (.observe body)) =
            ([], c.timed) := by
          simp only [Duty.perform, hread, hname, if_false]
        rw [hsame]
        exact ⟨_, run_duty rfl hnext duties⟩
  | expand =>
    rw [perform, Seeker.expand_eq_run]
    have hasked : Duty.perform plan.seeker 0 host c.timed (.task .expand) =
        ([.seek (plan.seeker.attemptsFrom host c.timed.store)], c.timed) := rfl
    exact ⟨_, (run_duty rfl hasked duties).trans (run_seek (hdone _) duties)⟩

variable (c before after free stage host)

theorem run_tasks (hdone : ∀ t, schedule.Completes plan.seeker t) (tasks : List Task) :
    ∃ trace, Run (c.withErrand before after free stage ⟨host, .working (tasks.map .task)⟩) trace
      ((tasks.foldl (fun c task => c.perform plan schedule host task) c).withErrand before after
        free stage ⟨host, .working []⟩) := by
  induction tasks generalizing c with
  | nil => exact ⟨_, .refl⟩
  | cons task tasks ih =>
    obtain ⟨_, hfirst⟩ := run_perform (hdone c.timed) task (tasks.map .task)
    obtain ⟨_, hrest⟩ := ih (c.perform plan schedule host task)
    exact ⟨_, hfirst.trans hrest⟩

/-- A job from its beginning to its end. -/
theorem run_checkHost (hdone : ∀ t, schedule.Completes plan.seeker t) (hfree : 0 < free) :
    let checked := c.checkHost plan schedule host
    ∃ trace, Run (c.withErrand before after free stage { host }) trace
      { timed := checked.timed, alarm := checked.alarm
        inFlight := checked.inFlight.erase host.id
        free, stage, errands := before ++ after } := by
  intro checked
  let tasks := tasksOf (results plan.seeker.prober host)
  have hbegin : Run (c.withErrand before after free stage { host }) []
      (c.withErrand before after (free - 1) stage ⟨host, .checking⟩) := by
    have hjob := getElem?_withErrand c before after free stage { host }
    have hstep := (Step.begin hjob hfree).run
    rwa [proceed_withErrand] at hstep
  have hcheck : Run (c.withErrand before after (free - 1) stage ⟨host, .checking⟩) []
      (c.withErrand before after (free - 1) stage ⟨host, .working (tasks.map .task)⟩) := by
    have hjob := getElem?_withErrand c before after (free - 1) stage ⟨host, .checking⟩
    have hstep := (Step.check plan.seeker.prober hjob).run
    rwa [proceed_withErrand] at hstep
  obtain ⟨_, htasks⟩ := run_tasks c before after (free - 1) stage host hdone tasks
  have hfinish : Run (checked.withErrand before after (free - 1) stage ⟨host, .working []⟩) []
      (checked.withErrand before after free stage ⟨host, .leaving⟩) := by
    have hjob := getElem?_withErrand checked before after (free - 1) stage ⟨host, .working []⟩
    have hstep := (Step.finish hjob Progress.noConfusion).run
    rw [proceed_withErrand] at hstep
    have hback : free - 1 + 1 = free := Nat.sub_add_cancel hfree
    simpa only [withErrand, Progress.hasPermit, if_true, hback] using hstep
  have hleft := getElem?_withErrand checked before after free stage ⟨host, .leaving⟩
  have hleave := (Step.leave hleft).run
  have herase : (before ++ ⟨host, .leaving⟩ :: after).eraseIdx before.length = before ++ after := by
    rw [List.eraseIdx_append_of_length_le (Nat.le_refl _), Nat.sub_self]
    rfl
  simp only [withErrand, herase] at hleave
  exact ⟨_, (((hbegin.trans hcheck).trans htasks).trans hfinish).trans hleave⟩

/-- Jobs that end one after the other are a run. -/
theorem run_finishJobs {others : List Errand} (hdone : ∀ t, schedule.Completes plan.seeker t)
    (hfree : 0 < free) :
    ∃ trace, Run (c.asService others free stage) trace
      ((c.finishJobs plan schedule).asService others free stage) := by
  unfold finishJobs
  generalize hjobs : c.jobs = jobs
  induction jobs generalizing c with
  | nil =>
    have hsame : { c with jobs := [] } = c := by rw [← hjobs]
    rw [List.foldl_nil, hsame]
    exact ⟨_, .refl⟩
  | cons job jobs ih =>
    let checked := c.checkHost plan schedule job.host
    obtain ⟨_, hjob⟩ := run_checkHost c others (jobs.map fun job => { host := job.host }) free stage
      job.host hdone hfree
    obtain ⟨_, hrest⟩ := ih
      { checked with inFlight := checked.inFlight.erase job.host.id, jobs } rfl
    have hchecked : ({ c with jobs := [] } : Scheduler).checkHost plan schedule job.host =
        { checked with jobs := [] } := foldl_perform_jobs ..
    have hstart : c.asService others free stage = c.withErrand others
        (jobs.map fun job => { host := job.host }) free stage { host := job.host } := by
      simp only [asService, withErrand, hjobs, List.map_cons]
    rw [List.foldl_cons, hchecked, hstart]
    exact ⟨_, hjob.trans hrest⟩

end Jobs

end PeerHealth.Scheduler
