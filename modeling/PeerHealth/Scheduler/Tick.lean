import PeerHealth.Scheduler.Alarm
import PeerHealth.Scheduler.Discovery

/-! Ticks: on each, peers are looked for, and each peer that no job is under way for gets one. A job
checks its peer on each of its addresses, records the results, and learns from what the peer said.
Jobs take turns in any order, a limited number of them at a time. -/

namespace PeerHealth.Scheduler

/-- What a scheduler works with. -/
structure Plan where
  seeker : Seeker
  candidates : Except String (List String)
  /-- How many jobs may run at a time. -/
  workers : Nat

/-- What is left to do for a job. -/
inductive Task where
  | record (result : CheckResult)
  /-- Learns from the document in a response body. -/
  | observe (body : String)
  /-- Asks the peer whom it knows. -/
  | expand
deriving DecidableEq, Repr

/-- A job: it waits for its turn, or has tasks left to do. -/
inductive Phase where
  | waiting
  | running (tasks : List Task)
deriving DecidableEq, Repr

/-- A job under way for a peer, which is as it was when the job was set up. -/
structure Job where
  host : Host
  phase : Phase := .waiting
deriving DecidableEq, Repr

end Scheduler

/-- A scheduler: its store, its watch over the store, the numbers of the hosts that it takes to have
a job under way, and the jobs. -/
structure Scheduler where
  timed : TimedStore
  alarm : Scheduler.Alarm := {}
  inFlight : List Int := []
  jobs : List Scheduler.Job := []

namespace Scheduler

/-- Hears of something that happened to the store. -/
def hear (s : Scheduler) (e : StorageEvent) : Scheduler := { s with alarm := s.alarm.hear e }

/-- What the alarm hears of an attempt to record a check. -/
def recordEvent : Except Store.Fault Check → StorageEvent
  | .ok _ => .recorded
  | .error .notFound => .hostGone
  | .error fault => .failed fault

def record (s : Scheduler) (host : Host) (result : CheckResult) : Scheduler :=
  let (answer, timed) := s.timed.write fun store now => store.recordCheck now host.id result
  { s with timed }.hear (recordEvent answer)

/-- What the alarm hears of an attempt to record what a peer says of itself. -/
def observeEvent : Except Store.Fault Host → StorageEvent
  | .ok _ | .error .notFound | .error (.conflict _) => .upserted
  | .error fault => .failed fault

/-- Learns from the document that a peer answered with, if it is the peer's own: its addresses, and
that it was seen. -/
def observe (s : Scheduler) (host : Host) (body : String) : Scheduler :=
  match Wire.Document.ofBytes? (Text.Utf8.encode body) with
  | .error _ => s
  | .ok d =>
    if d.hostname = host.hostname then
      let (answer, timed) := s.timed.write fun store now => store.upsertHost now (d.toIdentity "" 0)
      { s with timed }.hear (observeEvent answer)
    else s

/-- The results of checking a host on each of its addresses over each protocol. -/
def results (p : Probe.Prober) (host : Host) : List CheckResult :=
  Network.all.flatMap fun network =>
    match host.address? network with
    | none => []
    | some address => Protocol.all.map fun protocol =>
        (p.probe protocol address host.servicePort).toResult network protocol

/-- A result that shows that the host answered a web request. -/
def CheckResult.isAnswer (r : CheckResult) : Bool := r.protocol = .http && r.status = .success

/-- What is to be done with results: they are recorded, the first answer is learnt from, and if
there was one on the public address, the peer is asked whom it knows. -/
def tasksOf (results : List CheckResult) : List Task :=
  let answers := results.filter CheckResult.isAnswer
  let learn := match answers.findSome? (·.body) with
    | some body => [.observe body]
    | none => []
  let ask := if answers.any (·.network = .external) then [.expand] else []
  results.map .record ++ learn ++ ask

def perform (plan : Plan) (schedule : Schedule) (s : Scheduler) (host : Host) : Task → Scheduler
  | .record result => s.record host result
  | .observe body => s.observe host body
  | .expand => { s with timed := (plan.seeker.expand schedule host s.timed).2 }

/-- Sets up a job for a host, unless one is under way. The answer tells whether it did. -/
def dispatch (s : Scheduler) (host : Host) : Bool × Scheduler :=
  if s.inFlight.contains host.id then (false, s)
  else (true, { s with inFlight := host.id :: s.inFlight, jobs := s.jobs ++ [{ host }] })

/-- Sets up jobs for hosts. The answer is how many. -/
def dispatchAll (s : Scheduler) : List Host → Nat × Scheduler
  | [] => (0, s)
  | host :: hosts =>
    let (isNew, s) := s.dispatch host
    let (n, s) := s.dispatchAll hosts
    ((if isNew then 1 else 0) + n, s)

/-- One tick. The answer is how many jobs it has set up. -/
def tick (plan : Plan) (schedule : Schedule) (s : Scheduler) : Nat × Scheduler :=
  let (found, timed) := plan.seeker.discover schedule plan.candidates s.timed
  let s := { s with timed }
  let s := match found with
    | .error (.store fault) => s.hear (.failed fault)
    | .error (.unresolved _) | .ok _ => s
  match s.timed.store.hosts {} with
  | .error fault => (0, s.hear (.failed fault))
  | .ok hosts => s.dispatchAll hosts

def running (s : Scheduler) : Nat := (s.jobs.filter (·.phase ≠ .waiting)).length

/-- Job `i` begins, if it may: its host is checked. -/
def beginJob (plan : Plan) (s : Scheduler) (i : Nat) : Scheduler :=
  match s.jobs[i]? with
  | some ⟨host, .waiting⟩ =>
    if s.running < max plan.workers 1 then
      { s with jobs := s.jobs.set i ⟨host, .running (tasksOf (results plan.seeker.prober host))⟩ }
    else s
  | _ => s

def endJob (s : Scheduler) (i : Nat) : Scheduler :=
  match s.jobs[i]? with
  | some job => { s with jobs := s.jobs.eraseIdx i, inFlight := s.inFlight.erase job.host.id }
  | none => s

/-- Job `i` does its next task, or ends if there is none. -/
def advance (plan : Plan) (schedule : Schedule) (s : Scheduler) (i : Nat) : Scheduler :=
  match s.jobs[i]? with
  | some ⟨_, .running []⟩ => s.endJob i
  | some ⟨host, .running (task :: tasks)⟩ =>
    { s with jobs := s.jobs.set i ⟨host, .running tasks⟩ }.perform plan schedule host task
  | _ => s

/-- Runs a job for a host from its beginning to its end. -/
def checkHost (plan : Plan) (schedule : Schedule) (s : Scheduler) (host : Host) : Scheduler :=
  (tasksOf (results plan.seeker.prober host)).foldl
    (fun s task => s.perform plan schedule host task) s

/-- Runs the jobs that wait, one after the other, to their ends. -/
def finishJobs (plan : Plan) (schedule : Schedule) (s : Scheduler) : Scheduler :=
  s.jobs.foldl (fun s job =>
      let s := s.checkHost plan schedule job.host
      { s with inFlight := s.inFlight.erase job.host.id })
    { s with jobs := [] }

inductive Ending where
  | stopped
  | failed (failure : StorageFailure)
deriving DecidableEq, Repr

/-- The scheduler runs from its start until it is told to stop, with one tick meanwhile. A raised
alarm ends it. -/
def run (plan : Plan) (schedule : Schedule) (s : Scheduler) : Ending × Scheduler :=
  match s.alarm.take? with
  | some (failure, alarm) => (.failed failure, { s with alarm })
  | none =>
    let s := (s.tick plan schedule).2
    match s.alarm.take? with
    | some (failure, alarm) => (.failed failure, { s with alarm })
    | none => (.stopped, s)

end Scheduler
end PeerHealth
