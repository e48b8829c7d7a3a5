import Mathlib.Data.List.Nodup
import Mathlib.Data.List.Perm.Basic
import PeerHealth.Proofs.Scheduler.Visits
import PeerHealth.Proofs.Store.Counters
import PeerHealth.Scheduler.Tick

/-! Jobs and what they record. Main statements: of the checks that jobs have to record each one is
either written or still left to them, whatever is done in between; and to run jobs one after the
other is one of the ways in which they can take their turns. -/

namespace PeerHealth.Scheduler

open Probe (Prober)
open Store (Bucket Database HostRow Tally bucketOf tallied)

/-! ### What jobs have to record -/

/-- The buckets that a host is to be checked for. -/
def dueOf (h : Host) : List Bucket :=
  Network.all.flatMap fun n =>
    if h.address? n = none then [] else Protocol.all.map fun p => ⟨h.id, n, p⟩

/-- The number of networks on which a host has an address. -/
def addressCount (h : Host) : Nat := Network.all.countP fun n => decide (h.address? n ≠ none)

/-- The bucket in which a task records a check of a host, if it does. -/
def Task.bucket? (id : Int) : Task → Option Bucket
  | .record result => some (bucketOf id result)
  | .observe _ | .expand => none

/-- The buckets in which a job is still to record a check. -/
def Job.buckets : Job → List Bucket
  | ⟨host, .waiting⟩ => dueOf host
  | ⟨host, .running tasks⟩ => tasks.filterMap (Task.bucket? host.id)

section Due

theorem mem_dueOf {h : Host} {b : Bucket} :
    b ∈ dueOf h ↔ h.id = b.host ∧ h.address? b.network ≠ none := by
  obtain ⟨id, n, p⟩ := b
  simp only [dueOf, Network.all, Protocol.all, List.flatMap_cons, List.flatMap_nil, List.append_nil,
    List.mem_append]
  cases n <;> cases p <;> grind

theorem nodup_dueOf (h : Host) : (dueOf h).Nodup := by
  simp only [dueOf, Network.all, Protocol.all, List.flatMap_cons, List.flatMap_nil, List.append_nil]
  split <;> split <;> simp

theorem length_dueOf (h : Host) : (dueOf h).length = 4 * addressCount h := by
  simp only [dueOf, addressCount, Network.all, Protocol.all, List.flatMap_cons, List.flatMap_nil,
    List.append_nil, List.length_append, List.countP_cons, List.countP_nil]
  split <;> split <;> simp_all

theorem map_bucketOf_results (p : Prober) (h : Host) :
    (results p h).map (bucketOf h.id) = dueOf h := by
  rw [results, List.map_flatMap, dueOf]
  refine congrArg (List.flatMap · Network.all) (funext fun n => ?_)
  cases h.address? n with
  | none => rfl
  | some address => rfl

theorem buckets_tasksOf (id : Int) (rs : List CheckResult) :
    (tasksOf rs).filterMap (Task.bucket? id) = rs.map (bucketOf id) := by
  have hrecords : (rs.map Task.record).filterMap (Task.bucket? id) = rs.map (bucketOf id) := by
    rw [List.filterMap_map]
    exact congrFun List.filterMap_eq_map rs
  simp only [tasksOf, List.filterMap_append, hrecords]
  split <;> split <;> simp [Task.bucket?]

end Due

/-! ### What happens while jobs are under way -/

/-- Something that happens while jobs are under way: one begins or does its next task, on a network
as it is then, or there is another write to the store. -/
inductive Move where
  | beginJob (plan : Plan) (i : Nat)
  | advance (plan : Plan) (schedule : Schedule) (i : Nat)
  | write (w : Store.Write)

def move (s : Scheduler) : Move → Scheduler
  | .beginJob plan i => s.beginJob plan i
  | .advance plan schedule i => s.advance plan schedule i
  | .write w =>
    { s with
      timed := { s.timed with store := s.timed.store.apply w, writes := s.timed.writes + 1 } }

/-- The scheduler after moves. -/
def moves (s : Scheduler) (ms : List Move) : Scheduler := ms.foldl move s

theorem moves_cons (s : Scheduler) (m : Move) (ms : List Move) :
    s.moves (m :: ms) = (s.move m).moves ms := rfl

/-- A check that a job records is written, and no other write is of a check or has a host
deleted. -/
def allows (s : Scheduler) : Move → Bool
  | .beginJob .. => true
  | .advance _ _ i =>
    match s.jobs[i]? with
    | some ⟨host, .running (.record result :: _)⟩ =>
      (s.timed.store.recordCheck s.timed.now host.id result).1.isOk
    | _ => true
  | .write w =>
    !w.isCheck && s.timed.store.database.hosts.all fun r =>
      (s.timed.store.apply w).database.hosts.any fun r' => decide (r'.id = r.id)

/-- Each of some moves is allowed when it is made. -/
def allowsAll (s : Scheduler) : List Move → Bool
  | [] => true
  | m :: ms => s.allows m && (s.move m).allowsAll ms

/-- Where the jobs of a tick stand: of the checks that are due since `start` those in `done` have
been written, each in the tally of its bucket, and the others are left to the jobs. -/
structure Underway (start : Database) (before : List Tally) (due : List Bucket) (s : Scheduler)
    (done : List Bucket) : Prop where
  sound : s.timed.Sound
  stay : start.HostsStay s.timed.store.database
  split : (done ++ s.jobs.flatMap Job.buckets).Perm due
  tallies : ∃ tallies, s.timed.store.database.Tallied tallies ∧
    ∀ p, tallied tallies p = tallied before p + done.countP p
  since : ∀ b, (s.timed.store.database.checksSince start.lastCheck b).length = done.count b
  lastCheck : start.lastCheck ≤ s.timed.store.database.lastCheck

section Jobs

variable {jobs : List Job} {i : Nat} {job : Job}

/-- What jobs have to record is what one of them has, and what the others have. -/
theorem buckets_eraseIdx (h : jobs[i]? = some job) :
    (job.buckets ++ (jobs.eraseIdx i).flatMap Job.buckets).Perm (jobs.flatMap Job.buckets) := by
  obtain ⟨hlt, rfl⟩ := List.getElem?_eq_some_iff.mp h
  exact (List.getElem_cons_eraseIdx_perm hlt).flatMap_right Job.buckets

theorem buckets_set (h : jobs[i]? = some job) (next : Job) :
    (next.buckets ++ (jobs.eraseIdx i).flatMap Job.buckets).Perm
      ((jobs.set i next).flatMap Job.buckets) := by
  obtain ⟨hlt, -⟩ := List.getElem?_eq_some_iff.mp h
  exact ((List.set_perm_cons_eraseIdx hlt next).flatMap_right Job.buckets).symm

theorem buckets_set_of_eq (h : jobs[i]? = some job) {next : Job}
    (heq : next.buckets = job.buckets) :
    ((jobs.set i next).flatMap Job.buckets).Perm (jobs.flatMap Job.buckets) :=
  (buckets_set h next).symm.trans (heq ▸ buckets_eraseIdx h)

end Jobs

section Steps

variable {start : Database} {before : List Tally} {due done : List Bucket} {s s' : Scheduler}

/-- A step in which only hosts are written, and which leaves the same to record. -/
theorem Underway.of_hosted (h : Underway start before due s done)
    (hhosted : s.timed.Hosted s'.timed)
    (hjobs : (s'.jobs.flatMap Job.buckets).Perm (s.jobs.flatMap Job.buckets)) :
    Underway start before due s' done := by
  have hkept := hhosted.kept
  obtain ⟨tallies, htallied, hcount⟩ := h.tallies
  refine ⟨hhosted.sound, h.stay.trans hkept.toHostsStay, (hjobs.append_left done).trans h.split,
    ⟨tallies, htallied.of_hostsKept hkept, hcount⟩, fun b => ?_, ?_⟩
  · rw [Database.checksSince, hkept.checks]
    exact h.since b
  · rw [hkept.lastCheck]
    exact h.lastCheck

theorem Underway.of_logged (h : Underway start before due s done) (hdue : due.Nodup)
    {host : Int} {result : CheckResult} {now : String} {limit : Nat}
    {answer : Except Store.Fault Check} {db : Database}
    (hlog : Store.Logged s.timed.store.database host result now limit answer db)
    (hok : answer.isOk = true) (htimed : s'.timed = s.timed.wrote db)
    (hjobs : (bucketOf host result :: s'.jobs.flatMap Job.buckets).Perm
      (s.jobs.flatMap Job.buckets)) :
    Underway start before due s' (done ++ [bucketOf host result]) := by
  have hsplit : (done ++ [bucketOf host result] ++ s'.jobs.flatMap Job.buckets).Perm due := by
    rw [List.append_assoc]
    exact (hjobs.append_left done).trans h.split
  -- it is the first one in its bucket
  have hnot : bucketOf host result ∉ done := by
    have hnodup := hsplit.nodup_iff.mpr hdue
    rw [List.append_assoc] at hnodup
    exact fun hin => (List.nodup_append.mp hnodup).2.2 _ hin _ (List.mem_cons_self ..) rfl
  cases hlog with
  | refused fault => cases hok
  | @logged r c mem hid room kept =>
    obtain ⟨tallies, htallied, hcount⟩ := h.tallies
    have hnext := (Store.Statements.lt_nextId s.timed.store.database.lastCheck
      (s.timed.store.database.checks.map (·.id))).1
    have hcount' : ∀ p, tallied (Store.tallyCheck tallies (bucketOf host result) result.status) p =
        tallied before p + (done ++ [bucketOf host result]).countP p := by
      intro p
      rw [Store.tallied_tallyCheck htallied.distinct, hcount, List.countP_append]
      by_cases hp : p (bucketOf host result) = true <;> simp [hp, Nat.add_assoc]
    refine ⟨?_, ?_, hsplit, ⟨_, ?_, hcount'⟩, fun b => ?_, ?_⟩
    · rw [htimed]
      exact ⟨h.sound.hosts.congr rfl rfl, h.sound.clock⟩
    · rw [htimed]
      exact h.stay.trans (.of_eq rfl rfl)
    · rw [htimed]
      exact htallied.logged room
    · rw [htimed, List.count_append]
      show ((Database.logged _ host result now limit).checksSince start.lastCheck b).length = _
      by_cases hb : bucketOf host result = b
      · subst hb
        have hzero := List.count_eq_zero.mpr hnot
        have hnone := h.since (bucketOf host result)
        rw [hzero, List.length_eq_zero_iff] at hnone
        rw [Store.checksSince_logged h.lastCheck hnone kept, hzero]
        simp
      · rw [Store.checksSince_logged_of_ne hb, h.since b]
        simp [hb]
    · rw [htimed]
      have hle := h.lastCheck
      show start.lastCheck ≤ Store.Statements.nextCheck s.timed.store.database
      change s.timed.store.database.lastCheck < Store.Statements.nextCheck _ at hnext
      omega

/-- To record a result is to write a check, and touches no job. -/
theorem record_logged (s : Scheduler) (host : Host) (result : CheckResult) :
    ∃ answer db,
      s.timed.store.recordCheck s.timed.now host.id result =
        (answer, { s.timed.store with database := db }) ∧
      Store.Logged s.timed.store.database host.id result (Time.storedText s.timed.now)
        s.timed.store.historyLimit answer db ∧
      (s.record host result).timed = s.timed.wrote db ∧ (s.record host result).jobs = s.jobs := by
  obtain ⟨answer, db, hrun, hlog⟩ :=
    s.timed.store.recordCheck_logged s.timed.now host.id result
  refine ⟨answer, db, hrun, hlog, ?_, ?_⟩
  · simp only [record, TimedStore.write, hrun, hear, TimedStore.wrote]
  · simp only [record, TimedStore.write, hrun, hear]

/-- To learn from what a peer said is to write its identity, if anything, and touches no job. -/
theorem observe_hosted (hsound : s.timed.Sound) (host : Host) (body : String) :
    s.timed.Hosted (s.observe host body).timed ∧ (s.observe host body).jobs = s.jobs := by
  unfold observe
  split
  · exact ⟨hsound.hosted, rfl⟩
  · rename_i d _
    split
    · have hhosted := hosted_writeIdentity hsound (d.toIdentity "" 0)
      -- the event that is heard of depends on the answer, and changes neither
      generalize hwrite :
        s.timed.write (fun store now => store.upsertHost now (d.toIdentity "" 0)) = written
      rw [writeIdentity, hwrite] at hhosted
      exact ⟨hhosted, rfl⟩
    · exact ⟨hsound.hosted, rfl⟩

/-- A write that has no host deleted leaves all of them there. -/
theorem hostsKept_of_all {store : Store} (hdb : store.database.HostsSound) {w : Store.Write}
    (hw : w.isCheck = false)
    (hall : ∀ r ∈ store.database.hosts, ∃ r' ∈ (store.apply w).database.hosts, r'.id = r.id) :
    store.database.HostsKept (store.apply w).database := by
  rcases Store.atMostOneGone_apply hdb hw with hkept | ⟨r, hr, -, hkept⟩
  · exact hkept
  · obtain ⟨r', hr', hid⟩ := hall r hr
    rcases hkept.numbers r' hr' with ⟨r0, hr0, hid0, -⟩ | hnew
    · exact absurd (hid0.trans hid) (Database.mem_without.mp hr0).2
    · have hold := (hdb.numbered r hr).2
      change store.database.lastHost < r'.id at hnew
      omega

theorem Underway.beginJob (h : Underway start before due s done) (plan : Plan) (i : Nat) :
    Underway start before due (s.beginJob plan i) done := by
  unfold Scheduler.beginJob
  split
  · rename_i host hjob
    split
    · refine h.of_hosted h.sound.hosted (buckets_set_of_eq hjob ?_)
      exact (buckets_tasksOf host.id _).trans (map_bucketOf_results plan.seeker.prober host)
    · exact h
  · exact h

/-- A job does a task: it records a check, or it writes hosts. -/
theorem Underway.perform (h : Underway start before due s done) (hdue : due.Nodup) {i : Nat}
    {host : Host} {task : Task} {tasks : List Task}
    (hjob : s.jobs[i]? = some ⟨host, .running (task :: tasks)⟩)
    (hrecorded : ∀ result, task = .record result →
      (s.timed.store.recordCheck s.timed.now host.id result).1.isOk = true)
    (plan : Plan) (schedule : Schedule) :
    ∃ done', Underway start before due
      ({ s with jobs := s.jobs.set i ⟨host, .running tasks⟩ }.perform plan schedule host task)
      done' := by
  let s' : Scheduler := { s with jobs := s.jobs.set i ⟨host, .running tasks⟩ }
  cases task with
  | record result =>
    obtain ⟨answer, db, hrun, hlog, htimed, hjobs⟩ := record_logged s' host result
    have hok := hrecorded result rfl
    rw [show s.timed.store.recordCheck s.timed.now host.id result = _ from hrun] at hok
    refine ⟨_, h.of_logged hdue hlog hok htimed ?_⟩
    rw [show (s'.perform plan schedule host (.record result)).jobs = s'.jobs from hjobs]
    exact ((buckets_set hjob _).symm.cons _).trans (buckets_eraseIdx hjob)
  | observe body =>
    obtain ⟨hhosted, hjobs⟩ := observe_hosted (s := s') h.sound host body
    refine ⟨done, h.of_hosted hhosted ?_⟩
    rw [show (s'.perform plan schedule host (.observe body)).jobs = s'.jobs from hjobs]
    exact buckets_set_of_eq hjob rfl
  | expand =>
    exact ⟨done, h.of_hosted (hosted_expand h.sound plan.seeker schedule host)
      (buckets_set_of_eq hjob rfl)⟩

/-- No move undoes what jobs have done. -/
theorem Underway.move (h : Underway start before due s done) (hdue : due.Nodup) {m : Move}
    (hallowed : s.allows m = true) : ∃ done', Underway start before due (s.move m) done' := by
  cases m with
  | beginJob plan i => exact ⟨done, h.beginJob plan i⟩
  | advance plan schedule i =>
    simp only [Scheduler.move, advance]
    split
    · rename_i host hjob
      have hended : s.endJob i = { s with
          jobs := s.jobs.eraseIdx i, inFlight := s.inFlight.erase host.id } := by
        simp only [endJob, hjob]
      rw [hended]
      exact ⟨done, h.of_hosted h.sound.hosted (buckets_eraseIdx hjob)⟩
    · rename_i host task tasks hjob
      refine h.perform hdue hjob ?_ plan schedule
      rintro result rfl
      simpa only [allows, hjob] using hallowed
    · exact ⟨done, h⟩
  | write w =>
    simp only [allows, Bool.and_eq_true, Bool.not_eq_true', List.all_eq_true, List.any_eq_true,
      decide_eq_true_eq] at hallowed
    have hkept := hostsKept_of_all h.sound.hosts hallowed.1 hallowed.2
    exact ⟨done, h.of_hosted ⟨⟨Store.hostsSound_apply h.sound.hosts w, h.sound.clock⟩, hkept⟩
      (.refl _)⟩

theorem Underway.moves (h : Underway start before due s done) (hdue : due.Nodup) {ms : List Move}
    (hallowed : s.allowsAll ms = true) : ∃ done', Underway start before due (s.moves ms) done' := by
  induction ms generalizing s done with
  | nil => exact ⟨done, h⟩
  | cons m ms ih =>
    rw [allowsAll, Bool.and_eq_true] at hallowed
    obtain ⟨done', h'⟩ := h.move hdue hallowed.1
    rw [moves_cons]
    exact ih h' hallowed.2

end Steps

/-! ### Jobs one after the other -/

/-- The moves by which jobs that wait are run one after the other, each to its end. -/
def turns (plan : Plan) (schedule : Schedule) (jobs : List Job) : List Move :=
  jobs.flatMap fun job =>
    .beginJob plan 0 ::
      List.replicate ((tasksOf (results plan.seeker.prober job.host)).length + 1)
        (.advance plan schedule 0)

section Turns

variable (plan : Plan) (schedule : Schedule)

theorem moves_append (s : Scheduler) (earlier later : List Move) :
    s.moves (earlier ++ later) = (s.moves earlier).moves later := List.foldl_append

theorem perform_jobs (s : Scheduler) (jobs : List Job) (host : Host) (task : Task) :
    ({ s with jobs } : Scheduler).perform plan schedule host task =
      { s.perform plan schedule host task with jobs } := by
  cases task with
  | record result =>
    simp only [perform, record]
    generalize s.timed.write (fun store now => store.recordCheck now host.id result) = written
    rfl
  | observe body =>
    simp only [perform, observe]
    split
    · rfl
    · rename_i d _
      split
      · generalize s.timed.write (fun store now => store.upsertHost now (d.toIdentity "" 0)) =
          written
        rfl
      · rfl
  | expand => rfl

theorem foldl_perform_jobs (s : Scheduler) (jobs : List Job) (host : Host) (tasks : List Task) :
    tasks.foldl (fun s task => s.perform plan schedule host task) { s with jobs } =
      { tasks.foldl (fun s task => s.perform plan schedule host task) s with jobs } := by
  induction tasks generalizing s with
  | nil => rfl
  | cons task tasks ih => rw [List.foldl_cons, List.foldl_cons, perform_jobs, ih]

/-- A job that does task after task to its end. -/
theorem moves_replicate_advance {s : Scheduler} {host : Host} {tasks : List Task} {rest : List Job}
    (hjobs : s.jobs = ⟨host, .running tasks⟩ :: rest) :
    s.moves (List.replicate (tasks.length + 1) (.advance plan schedule 0)) =
      let ended := tasks.foldl (fun s task => s.perform plan schedule host task) s
      { ended with jobs := rest, inFlight := ended.inFlight.erase host.id } := by
  induction tasks generalizing s with
  | nil =>
    show s.advance plan schedule 0 = _
    simp [advance, endJob, hjobs]
  | cons task tasks ih =>
    have hstep : s.advance plan schedule 0 =
        { s.perform plan schedule host task with jobs := ⟨host, .running tasks⟩ :: rest } := by
      simp only [advance, hjobs, List.getElem?_cons_zero, List.set_cons_zero]
      exact perform_jobs plan schedule s _ host task
    rw [List.length_cons, List.replicate_succ, moves_cons]
    show (s.advance plan schedule 0).moves _ = _
    rw [hstep, ih rfl, foldl_perform_jobs]
    rfl

/-- Jobs that wait can be run one after the other. -/
theorem moves_turns {s : Scheduler} {jobs : List Job} (hjobs : s.jobs = jobs)
    (hwaiting : ∀ job ∈ jobs, job.phase = .waiting) :
    s.moves (turns plan schedule jobs) = s.finishJobs plan schedule := by
  rw [finishJobs, hjobs]
  induction jobs generalizing s with
  | nil =>
    show s = _
    rw [List.foldl_nil, ← hjobs]
  | cons job rest ih =>
    obtain ⟨host, phase⟩ := job
    obtain rfl : phase = .waiting := hwaiting _ (List.mem_cons_self ..)
    have hidle : s.running = 0 := by
      simpa [running, hjobs] using hwaiting
    let tasks := tasksOf (results plan.seeker.prober host)
    have hbegin : s.beginJob plan 0 = { s with jobs := ⟨host, .running tasks⟩ :: rest } := by
      simp only [beginJob, hjobs, List.getElem?_cons_zero, List.set_cons_zero, hidle]
      exact if_pos (by omega)
    rw [turns, List.flatMap_cons, moves_append, moves_cons]
    show ((s.beginJob plan 0).moves _).moves (turns plan schedule rest) = _
    rw [hbegin, moves_replicate_advance plan schedule rfl,
      ih rfl fun job hjob => hwaiting job (List.mem_cons_of_mem _ hjob), List.foldl_cons]
    simp only [checkHost, foldl_perform_jobs]

end Turns

end PeerHealth.Scheduler
