import PeerHealth.Scheduler.Tick
import PeerHealth.Trace

/-! The scheduler at work: the loop that ticks, and the jobs that it sets up, which go on beside it.
Each step is one thing that the loop or a job does with what they share: the store, the alarm, the
list of the hosts under way and the permits to run. In between, anything else may happen. -/

namespace PeerHealth.Scheduler

/-- What is left to do for a job that has checked its peer. -/
inductive Duty where
  | task (task : Task)
  /-- Tells the alarm what came of a write. -/
  | tell (event : StorageEvent)
  /-- Tries those whom the peer knows. -/
  | seek (attempts : List Attempt)
deriving DecidableEq, Repr

inductive Progress where
  | waiting
  /-- It has its permit, and is checking its peer. -/
  | checking
  | working (duties : List Duty)
  /-- It has given its permit back, and its host still counts as under way. -/
  | leaving
deriving DecidableEq, Repr

def Progress.hasPermit : Progress → Bool
  | .checking | .working _ => true
  | .waiting | .leaving => false

/-- A job that has been set up and has not ended. -/
structure Errand where
  host : Host
  progress : Progress := .waiting
deriving DecidableEq, Repr

inductive Stage where
  /-- It waits for what comes first. -/
  | idle
  /-- On a tick, it finds out where peers may be. -/
  | resolving
  /-- The hosts known so far cannot be read, and the alarm is to hear of it. -/
  | unread (fault : Store.Fault)
  | seeking (attempts : List Attempt)
  | listing
  /-- The peers cannot be listed, and the alarm is to hear of it. -/
  | unlisted (fault : Store.Fault)
  /-- It sets up jobs for these hosts. -/
  | dispatching (hosts : List Host)
  /-- It finds out who the node itself is. -/
  | refreshing
  | ended (ending : Ending)
deriving DecidableEq, Repr

/-- What can be told of a step. -/
inductive Notice where
  | heard (event : StorageEvent)
  | listed (hosts : List Host)
  | setUp (host : Host)
  /-- No job is set up, since one is under way. -/
  | passedOver (host : Host)
  /-- All listed hosts have been seen to. -/
  | dispatched
deriving DecidableEq, Repr

/-- The loop, its jobs, and what they share. -/
structure Service where
  timed : TimedStore
  alarm : Alarm := {}
  /-- The numbers of the hosts under way. -/
  inFlight : List Int := []
  /-- The permits that are left. -/
  free : Nat
  stage : Stage := .idle
  errands : List Errand := []

/-- The attempts that come of asking a peer whom it knows. -/
def Seeker.attemptsFrom (s : Seeker) (peer : Host) (store : Store) : List Attempt :=
  match peer.address? .external with
  | none => []
  | some address =>
    match s.prober.knownHosts address, knownHosts store with
    | .ok ds, .ok known => (freshDocuments known ds).map fun d => ⟨documentAddresses d, false⟩
    | _, _ => []

/-- The next thing to do for a duty, on a network as it is now. The answer is what is then left of
it. Of several attempts number `i` goes on. -/
def Duty.perform (seeker : Seeker) (i : Nat) (host : Host) (t : TimedStore) :
    Duty → List Duty × TimedStore
  | .task (.record result) =>
    let (answer, t) := t.write fun store now => store.recordCheck now host.id result
    ([.tell (recordEvent answer)], t)
  | .task (.observe body) =>
    match Wire.Document.ofBytes? (Text.Utf8.encode body) with
    | .error _ => ([], t)
    | .ok d =>
      if d.hostname = host.hostname then
        let (answer, t) := t.write fun store now => store.upsertHost now (d.toIdentity "" 0)
        ([.tell (observeEvent answer)], t)
      else ([], t)
  | .task .expand => ([.seek (seeker.attemptsFrom host t.store)], t)
  | .tell _ => ([], t)
  | .seek attempts =>
    if attempts.all (·.untried.isEmpty) then ([], t)
    else
      let search := Search.advance seeker ⟨attempts, t⟩ i
      ([.seek search.attempts], search.timed)

/-- What the alarm hears meanwhile. -/
def Duty.event? : Duty → Option StorageEvent
  | .tell event => some event
  | .task _ | .seek _ => none

namespace Service

/-- A scheduler that starts, with its permits. -/
def start (timed : TimedStore) (workers : Nat) : Service := { timed, free := max workers 1 }

def hear (s : Service) (event : StorageEvent) : Service := { s with alarm := s.alarm.hear event }

def proceed (s : Service) (i : Nat) (host : Host) (progress : Progress) : Service :=
  { s with errands := s.errands.set i ⟨host, progress⟩ }

/-- What may happen next, and what can be told of it. The network may be another one each time. -/
inductive Step : Service → List Notice → Service → Prop
  | beginTick {s} : s.stage = .idle → Step s [] { s with stage := .resolving }
  | unresolved {s} : s.stage = .resolving → Step s [] { s with stage := .listing }
  | resolved {s} {candidates : List String} {known : List Host} : s.stage = .resolving →
      knownHosts s.timed.store = .ok known →
      Step s [] { s with
        stage := .seeking ((unknownCandidates known candidates).map fun a => ⟨[a], false⟩) }
  | unread {s fault} : s.stage = .resolving → knownHosts s.timed.store = .error fault →
      Step s [] { s with stage := .unread fault }
  | tellUnread {s fault} : s.stage = .unread fault →
      Step s [.heard (.failed fault)] { s.hear (.failed fault) with stage := .listing }
  | seek {s attempts} (seeker : Seeker) (i : Nat) : s.stage = .seeking attempts →
      Step s [] { s with
        timed := (Search.advance seeker ⟨attempts, s.timed⟩ i).timed
        stage := .seeking (Search.advance seeker ⟨attempts, s.timed⟩ i).attempts }
  | sought {s attempts} : s.stage = .seeking attempts → Search.Finished ⟨attempts, s.timed⟩ →
      Step s [] { s with stage := .listing }
  | list {s hosts} : s.stage = .listing → s.timed.store.hosts {} = .ok hosts →
      Step s [.listed hosts] { s with stage := .dispatching hosts }
  | unlisted {s fault} : s.stage = .listing → s.timed.store.hosts {} = .error fault →
      Step s [] { s with stage := .unlisted fault }
  | tellUnlisted {s fault} : s.stage = .unlisted fault →
      Step s [.heard (.failed fault)] { s.hear (.failed fault) with stage := .idle }
  | setUp {s host hosts} : s.stage = .dispatching (host :: hosts) → host.id ∉ s.inFlight →
      Step s [.setUp host] { s with
        stage := .dispatching hosts
        inFlight := host.id :: s.inFlight
        errands := s.errands ++ [{ host }] }
  | passOver {s host hosts} : s.stage = .dispatching (host :: hosts) → host.id ∈ s.inFlight →
      Step s [.passedOver host] { s with stage := .dispatching hosts }
  | endTick {s} : s.stage = .dispatching [] → Step s [.dispatched] { s with stage := .idle }
  | beginRefresh {s} : s.stage = .idle → Step s [] { s with stage := .refreshing }
  /-- What the node is gets recorded, or is not: the alarm hears of neither. -/
  | endRefresh {s} (me : Identity) : s.stage = .refreshing →
      Step s [] { s with
        timed := (s.timed.write fun store now => store.refreshSelf now me).2
        stage := .idle }
  | stop {s} : s.stage = .idle → Step s [] { s with stage := .ended .stopped }
  | fail {s failure alarm} : s.stage = .idle → s.alarm.take? = some (failure, alarm) →
      Step s [] { s with alarm, stage := .ended (.failed failure) }
  | begin {s i host} : s.errands[i]? = some ⟨host, .waiting⟩ → 0 < s.free →
      Step s [] { s.proceed i host .checking with free := s.free - 1 }
  | check {s i host} (prober : Probe.Prober) : s.errands[i]? = some ⟨host, .checking⟩ →
      Step s [] (s.proceed i host (.working ((tasksOf (results prober host)).map .task)))
  | work {s i host duty duties} (seeker : Seeker) (j : Nat) :
      s.errands[i]? = some ⟨host, .working (duty :: duties)⟩ →
      Step s (duty.event?.toList.map .heard)
        { s.proceed i host (.working ((duty.perform seeker j host s.timed).1 ++ duties)) with
          timed := (duty.perform seeker j host s.timed).2
          alarm := duty.event?.elim s.alarm s.alarm.hear }
  /-- A job has done all, or comes to its end before that: it panics or is cancelled. -/
  | finish {s i host progress} : s.errands[i]? = some ⟨host, progress⟩ → progress ≠ .leaving →
      Step s [] { s.proceed i host .leaving with
        free := if progress.hasPermit then s.free + 1 else s.free }
  | leave {s i host} : s.errands[i]? = some ⟨host, .leaving⟩ →
      Step s [] { s with
        errands := s.errands.eraseIdx i
        inFlight := s.inFlight.erase host.id }
  /-- Others write to the store. -/
  | write {s} (timed : TimedStore) : Step s [] { s with timed }

abbrev Run : Service → List Notice → Service → Prop := Trace.Run Step

end Service
end PeerHealth.Scheduler
