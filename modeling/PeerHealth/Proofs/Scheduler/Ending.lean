import PeerHealth.Proofs.Scheduler.Alarm
import PeerHealth.Proofs.Scheduler.Occupancy

/-! How the loop ends when storage fails. Main statement: it tells the most recent of all failures,
and how many have come since a check was last recorded. These are as many as the limit, unless a
check was recorded between the failure that raised the alarm and the moment the loop takes it. -/

namespace PeerHealth.Scheduler

open Service (Run Step)

def StorageEvent.fault? : StorageEvent → Option Store.Fault
  | .failed fault => some fault
  | .recorded | .hostGone | .upserted => none

/-- The most recent of all failures. -/
def lastFailure (events : List StorageEvent) : Option Store.Fault :=
  events.reverse.findSome? StorageEvent.fault?

section Events

variable {events : List StorageEvent}

theorem lastFailure_snoc (events : List StorageEvent) (e : StorageEvent) :
    lastFailure (events ++ [e]) = e.fault?.or (lastFailure events) := by
  rw [lastFailure, List.reverse_append, List.reverse_singleton, List.singleton_append,
    List.findSome?_cons]
  cases e.fault? <;> rfl

/-- Failures that have reached the limit have a last one among them. -/
theorem exists_lastFailure (h : LimitReached events) :
    ∃ fault, lastFailure events = some fault := by
  obtain ⟨before, row, after, rfl, -, hlimit⟩ := h
  obtain ⟨e, he, hfailure⟩ := List.countP_pos_iff.mp (Nat.lt_of_lt_of_le (by decide) hlimit)
  rw [← Option.isSome_iff_exists, lastFailure, List.findSome?_isSome_iff]
  refine ⟨e, by simp [he], ?_⟩
  cases e with
  | failed fault => rfl
  | recorded | hostGone | upserted => cases hfailure

theorem Alarm.last_hear (a : Alarm) (e : StorageEvent) :
    (a.hear e).last = e.fault?.or a.last := by
  cases e <;> rfl

theorem Alarm.last_hearAll {a : Alarm} (h : a.last = lastFailure events) (es : List StorageEvent) :
    (es.foldl Alarm.hear a).last = lastFailure (events ++ es) := by
  induction es generalizing a events with
  | nil => simpa using h
  | cons e es ih =>
    rw [List.foldl_cons, List.append_cons]
    exact ih (by rw [last_hear, lastFailure_snoc, h])

end Events

section Runs

variable {s t : Service} {trace notices : List Notice} {timed : TimedStore} {workers : Nat}

/-- The alarm remembers the most recent failure it has heard of, also once it has been taken. -/
theorem Service.Run.last (h : Run (Service.start timed workers) trace s) :
    s.alarm.last = lastFailure (trace.filterMap Notice.event?) := by
  refine h.invariant rfl fun hbefore hstep => ?_
  rcases hstep.alarm with ⟨halarm, -⟩ | ⟨-, rfl, failure, htake, -⟩
  · rw [halarm, List.filterMap_append]
    exact Alarm.last_hearAll hbefore _
  · obtain ⟨-, -, halarm⟩ := Alarm.take?_eq_some_iff.mp htake
    rw [halarm, List.append_nil]
    exact hbefore

/-- Once the loop has ended, the jobs that go on change nothing about its end. -/
theorem Service.Step.stage_of_ended {ending : Ending} (h : Step s notices t)
    (hended : s.stage = .ended ending) : t.stage = .ended ending := by
  cases h with
  | begin | check | work | finish | leave | write => exact hended
  | seek _ _ hstage | endRefresh _ hstage | _ hstage =>
    rw [hended] at hstage
    cases hstage

theorem Service.Run.stage_of_ended {ending : Ending} (h : Run s trace t)
    (hended : s.stage = .ended ending) : t.stage = .ended ending :=
  h.invariant hended fun hbefore hstep => hstep.stage_of_ended hbefore

/-- If no check was recorded after the limit was reached, the failures in a row still are as many
as the limit. -/
theorem le_failuresInARow {before row after : List StorageEvent} (hrow : .recorded ∉ row)
    (hlimit : failureLimit ≤ row.countP StorageEvent.isFailure) (hafter : .recorded ∉ after) :
    failureLimit ≤ failuresInARow (before ++ row ++ after) := by
  have hnone : .recorded ∉ row ++ after := by simp [hrow, hafter]
  rw [List.append_assoc]
  refine Nat.le_trans hlimit (Nat.le_trans ?_ (countP_le_failuresInARow before hnone))
  rw [List.countP_append]
  exact Nat.le_add_right ..

/-- When the loop ends because it takes the alarm, it tells the most recent of all failures that the
alarm has heard of, and the number of those since a check was last recorded, counted in a word. If
no check was recorded after the failures in a row had reached the limit, and the word did not go
round, this number is not below the limit. Whatever jobs do then, the loop's end stays as it is. -/
theorem failure_tells_of_last_row {failure : StorageFailure}
    (h : Run (Service.start timed workers) trace s) (hbefore : s.hasFailed = false)
    (hstep : Step s notices t) (hended : t.stage = .ended (.failed failure)) :
    let events := trace.filterMap Notice.event?
    LimitReached events ∧
    (∃ fault, lastFailure events = some fault ∧ failure.last = some fault ∧
      failure.lastMessage = fault.message) ∧
    failure.failures = failuresInARow events % Number.limit32 ∧
    (∀ before row after, events = before ++ row ++ after → .recorded ∉ row →
      failureLimit ≤ row.countP StorageEvent.isFailure → .recorded ∉ after →
      failuresInARow events < Number.limit32 → failureLimit ≤ failure.failures) ∧
    ∀ later u, Run t later u → u.stage = .ended (.failed failure) := by
  intro events
  obtain ⟨hraised, -, rfl⟩ := hstep.takes hbefore hended
  have hreached : LimitReached events := h.follows.reached.mp (.inl hraised)
  obtain ⟨fault, hfault⟩ := exists_lastFailure hreached
  have hlast : s.alarm.last = some fault := h.last.trans hfault
  have hcount : s.alarm.failures = failuresInARow events % Number.limit32 := h.follows.failures
  refine ⟨hreached, ⟨fault, hfault, hlast, ?_⟩, hcount, ?_, fun later u hlater => ?_⟩
  · rw [StorageFailure.lastMessage, hlast]
    rfl
  · intro before row after hevents hrow hlimit hafter hword
    rw [hcount, Nat.mod_eq_of_lt hword, hevents]
    exact le_failuresInARow hrow hlimit hafter
  · exact hlater.stage_of_ended hended

end Runs

/-- After three ticks over an unreadable store the loop tells of six failures. -/
theorem failure_tells_of_last_row_of_six :
    ∃ trace s t, Run (Service.start unreadableStore 2) trace s ∧ s.hasFailed = false ∧
      Step s [] t ∧ t.stage = .ended (.failed ⟨6, some unreadableFault⟩) ∧
      trace.filterMap Notice.event? = List.replicate 6 (.failed unreadableFault) ∧
      lastFailure (trace.filterMap Notice.event?) = some unreadableFault ∧ failureLimit ≤ 6 := by
  have hrun : Run (Service.start unreadableStore 2)
      (List.replicate 6 (.heard (.failed unreadableFault)))
      { Service.start unreadableStore 2 with alarm := ⟨6, some unreadableFault, true⟩ } :=
    ((run_unreadable rfl rfl).trans (run_unreadable rfl rfl)).trans (run_unreadable rfl rfl)
  have hfail := Step.fail (s := { Service.start unreadableStore 2 with
    alarm := ⟨6, some unreadableFault, true⟩ }) rfl rfl
  obtain ⟨-, ⟨fault, hfault, hlast, -⟩, -, hlimit, -⟩ :=
    failure_tells_of_last_row hrun rfl hfail rfl
  cases hlast
  refine ⟨_, _, _, hrun, rfl, hfail, rfl, rfl, hfault, ?_⟩
  exact hlimit [] (List.replicate 6 (.failed unreadableFault)) [] rfl (by decide) (by decide)
    (by decide) (by decide)

/-- A peer with two addresses. -/
def twofoldPeer : Identity :=
  { hostname := "b", internalAddress := "10.0.0.2", publicAddress := "1.2.3.4"
    servicePort := 5500 }

/-- A node that has no candidates and reaches no peer. -/
def lonePlan : Plan where
  seeker := { sampleSeeker with prober := { sampleSeeker.prober with net := .unconnected } }
  candidates := .ok []
  workers := 2

/-- A store that keeps one check a bucket. The clock has stepped back since five of the peer's eight
buckets were written, so that checks in these cannot be recorded. -/
def steppedBackStore : TimedStore :=
  let peer : Host :=
    { listedPeer with internalAddress := "10.0.0.2", publicAddress := "1.2.3.4" }
  let writes := ((results lonePlan.seeker.prober peer).take 5).map fun result =>
    Store.Write.recordCheck ⟨⟨120, 0⟩, by decide⟩ 1 result
  { store := ({} : Store).after ([.reopen 1, .upsertHost Time.epoch twofoldPeer] ++ writes)
    clock := fun _ => Time.epoch.1 }

/-- A job whose first five checks cannot be recorded and whose other three can: the alarm is raised
by the fifth, and when the loop takes it no failure counts any more. -/
theorem failure_tells_of_none :
    ∃ trace s, Run (Service.start steppedBackStore 2) trace s ∧
      s.stage = .ended (.failed ⟨0, some (.table .missingRow)⟩) ∧ ¬failureLimit ≤ 0 := by
  let c : Scheduler := { timed := steppedBackStore }
  let ticked := (c.tick lonePlan inTurn).2
  let checked := ticked.finishJobs lonePlan inTurn
  have hdone (t : TimedStore) : inTurn.Completes lonePlan.seeker t :=
    inTurn_completes lonePlan.seeker t
  obtain ⟨_, htick⟩ := run_tick c [] 2 (hdone steppedBackStore)
  have hfinish : ∃ trace, Run (ticked.asService [] 2 .idle) trace (checked.asService [] 2 .idle) :=
    run_finishJobs ticked 2 .idle hdone (by decide)
  obtain ⟨_, hjobs⟩ := hfinish
  have hraised : checked.alarm = ⟨0, some (.table .missingRow), true⟩ := by decide +kernel
  have hfail : Step (checked.asService [] 2 .idle) [] _ :=
    Step.fail rfl (Alarm.take?_eq_some_iff.mpr
      ⟨congrArg Alarm.raised hraised, rfl, rfl⟩)
  refine ⟨_, _, (htick.trans hjobs).tail hfail, ?_, by decide⟩
  show Stage.ended (.failed ⟨checked.alarm.failures, checked.alarm.last⟩) = _
  rw [hraised]

end PeerHealth.Scheduler
