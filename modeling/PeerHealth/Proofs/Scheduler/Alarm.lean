import Mathlib.Data.List.TakeWhile
import PeerHealth.Proofs.Scheduler.Telling

/-! The alarm. Main statement: in whatever order the loop and its jobs come to tell the alarm what
became of their writes, it counts the failures since a check was last recorded, is raised once they
reach the limit, and then stays raised until the loop takes it and ends. What it is told is what the
store has answered. -/

namespace PeerHealth.Scheduler

open Service (Run Step)

def StorageEvent.isFailure : StorageEvent → Bool
  | .failed _ => true
  | .recorded | .hostGone | .upserted => false

/-- The number of failures since a check was last recorded. -/
def failuresInARow (events : List StorageEvent) : Nat :=
  (events.reverse.takeWhile (· ≠ .recorded)).countP StorageEvent.isFailure

/-- At some point there had been as many failures as the limit with no check recorded between
them. -/
def LimitReached (events : List StorageEvent) : Prop :=
  ∃ before row after, events = before ++ row ++ after ∧ .recorded ∉ row ∧
    failureLimit ≤ row.countP StorageEvent.isFailure

section Events

variable {events : List StorageEvent} {e : StorageEvent}

theorem failuresInARow_recorded : failuresInARow (events ++ [.recorded]) = 0 := by
  simp [failuresInARow]

theorem failuresInARow_snoc (h : e ≠ .recorded) :
    failuresInARow (events ++ [e]) = failuresInARow events + if e.isFailure then 1 else 0 := by
  simp [failuresInARow, h, List.countP_cons]

/-- The events since a check was last recorded are at the end. -/
theorem exists_row (events : List StorageEvent) :
    ∃ before row, events = before ++ row ∧ .recorded ∉ row ∧
      row.countP StorageEvent.isFailure = failuresInARow events := by
  let row := (events.reverse.takeWhile (· ≠ .recorded)).reverse
  refine ⟨(events.reverse.dropWhile (· ≠ .recorded)).reverse, row, ?_, fun hmem => ?_, ?_⟩
  · rw [← List.reverse_append, List.takeWhile_append_dropWhile, List.reverse_reverse]
  · have := List.mem_takeWhile_imp (List.mem_reverse.mp hmem)
    simp at this
  · exact List.countP_reverse

/-- No check recorded in a row at the end: its failures are among those in a row. -/
theorem countP_le_failuresInARow (before : List StorageEvent) {row : List StorageEvent}
    (h : .recorded ∉ row) :
    row.countP StorageEvent.isFailure ≤ failuresInARow (before ++ row) := by
  have hrow : ∀ e ∈ row.reverse, decide (e ≠ .recorded) = true := by
    intro e he
    exact decide_eq_true fun heq => h (heq ▸ List.mem_reverse.mp he)
  rw [failuresInARow, List.reverse_append, List.takeWhile_append_of_pos hrow, List.countP_append,
    List.countP_reverse]
  exact Nat.le_add_right ..

theorem not_limitReached_nil : ¬ LimitReached [] := by
  rintro ⟨before, row, after, heq, -, hlimit⟩
  obtain ⟨-, rfl, -⟩ : before = [] ∧ row = [] ∧ after = [] := by simpa using heq.symm
  exact absurd hlimit (by decide)

/-- The limit is reached with a failure that is the last one needed. -/
theorem limitReached_snoc :
    LimitReached (events ++ [e]) ↔
      LimitReached events ∨ (e.isFailure = true ∧ failureLimit ≤ failuresInARow events + 1) := by
  constructor
  · rintro ⟨before, row, after, heq, hnone, hlimit⟩
    -- the new event ends the row, or the row had ended before it
    rcases List.eq_nil_or_concat' after with rfl | ⟨after, last, rfl⟩
    · rcases List.eq_nil_or_concat' row with rfl | ⟨row, last, rfl⟩
      · exact absurd hlimit (by decide)
      · obtain ⟨rfl, rfl⟩ : events = before ++ row ∧ e = last := by
          rw [List.append_nil, ← List.append_assoc] at heq
          simpa using List.append_inj' heq rfl
        simp only [List.mem_append, not_or] at hnone
        have hrow := countP_le_failuresInARow before hnone.1
        rw [List.countP_append, List.countP_singleton] at hlimit
        by_cases he : e.isFailure = true
        · rw [if_pos he] at hlimit
          exact .inr ⟨he, Nat.le_trans hlimit (Nat.add_le_add_right hrow 1)⟩
        · rw [if_neg he] at hlimit
          exact .inl ⟨before, row, [], by simp, hnone.1, hlimit⟩
    · refine .inl ⟨before, row, after, ?_, hnone, hlimit⟩
      rw [← List.append_assoc] at heq
      exact (List.append_inj' heq rfl).1
  · rintro (⟨before, row, after, rfl, hnone, hlimit⟩ | ⟨he, hlimit⟩)
    · exact ⟨before, row, after ++ [e], by simp, hnone, hlimit⟩
    · obtain ⟨before, row, rfl, hnone, hcount⟩ := exists_row events
      refine ⟨before, row ++ [e], [], by simp, ?_, ?_⟩
      · simp only [List.mem_append, List.mem_singleton, not_or]
        exact ⟨hnone, fun heq => by rw [← heq] at he; cases he⟩
      · rwa [List.countP_append, List.countP_singleton, if_pos he, hcount]

end Events

/-! ### What the alarm has heard -/

/-- The alarm has heard these events, and has been taken or not. -/
structure Alarm.Follows (a : Alarm) (taken : Bool) (events : List StorageEvent) : Prop where
  failures : a.failures = failuresInARow events % Number.limit32
  reached : (a.raised = true ∨ taken = true) ↔ LimitReached events

section Follows

variable {a : Alarm} {taken : Bool} {events : List StorageEvent}

theorem Alarm.follows_nil : Alarm.Follows {} false [] :=
  ⟨rfl, by simpa using not_limitReached_nil⟩

theorem limitReached_of_le (h : failureLimit ≤ failuresInARow events) : LimitReached events := by
  obtain ⟨before, row, rfl, hnone, hcount⟩ := exists_row events
  exact ⟨before, row, [], by simp, hnone, hcount ▸ h⟩

theorem Alarm.Follows.failed (h : a.Follows taken events) (fault : Store.Fault) :
    (a.hear (.failed fault)).Follows taken (events ++ [.failed fault]) := by
  have hrow : failuresInARow (events ++ [.failed fault]) = failuresInARow events + 1 :=
    failuresInARow_snoc StorageEvent.noConfusion
  have hcount : (a.failures + 1) % Number.limit32 =
      (failuresInARow events + 1) % Number.limit32 := by
    rw [h.failures, Nat.mod_add_mod]
  refine ⟨hcount.trans (by rw [hrow]), ?_⟩
  have hraised : (a.hear (.failed fault)).raised = true ↔
      a.raised = true ∨ failureLimit ≤ (failuresInARow events + 1) % Number.limit32 := by
    simp only [hear, hcount, Bool.or_eq_true, decide_eq_true_eq]
  -- the count starts again only long after the limit
  have hlimit : LimitReached events ∨
      failureLimit ≤ (failuresInARow events + 1) % Number.limit32 ↔
      LimitReached events ∨ failureLimit ≤ failuresInARow events + 1 := by
    refine ⟨Or.imp_right fun h => Nat.le_trans h (Nat.mod_le ..), ?_⟩
    rintro (hreached | hle)
    · exact .inl hreached
    · rcases Nat.lt_or_ge (failuresInARow events) failureLimit with hlt | hge
      · refine .inr ?_
        rwa [Nat.mod_eq_of_lt (Nat.lt_of_le_of_lt (Nat.succ_le_of_lt hlt) (by decide))]
      · exact .inl (limitReached_of_le hge)
  rw [hraised, limitReached_snoc, or_right_comm, h.reached, hlimit]
  simp [StorageEvent.isFailure]

theorem Alarm.Follows.hear (h : a.Follows taken events) (e : StorageEvent) :
    (a.hear e).Follows taken (events ++ [e]) := by
  have hsame (e : StorageEvent) (hfailure : e.isFailure = false) :
      LimitReached (events ++ [e]) ↔ LimitReached events := by
    simp [limitReached_snoc, hfailure]
  cases e with
  | failed fault => exact h.failed fault
  | recorded =>
    exact ⟨by rw [failuresInARow_recorded]; rfl, h.reached.trans (hsame _ rfl).symm⟩
  | hostGone =>
    refine ⟨?_, h.reached.trans (hsame _ rfl).symm⟩
    rw [failuresInARow_snoc StorageEvent.noConfusion]
    exact h.failures
  | upserted =>
    refine ⟨?_, h.reached.trans (hsame _ rfl).symm⟩
    rw [failuresInARow_snoc StorageEvent.noConfusion]
    exact h.failures

theorem Alarm.Follows.hearAll (h : a.Follows taken events) (es : List StorageEvent) :
    (es.foldl Alarm.hear a).Follows taken (events ++ es) := by
  induction es generalizing a events with
  | nil => simpa using h
  | cons e es ih =>
    rw [List.append_cons]
    exact ih (h.hear e)

/-- To take the alarm it has to be raised. -/
theorem Alarm.take?_eq_some_iff {a a' : Alarm} {failure : StorageFailure} :
    a.take? = some (failure, a') ↔
      a.raised = true ∧ failure = ⟨a.failures, a.last⟩ ∧ a' = { a with raised := false } := by
  unfold Alarm.take?
  split
  · rename_i h
    simp [h, eq_comm]
  · rename_i h
    simp [h]

theorem Alarm.Follows.take {a' : Alarm} {failure : StorageFailure} (h : a.Follows taken events)
    (htake : a.take? = some (failure, a')) : a'.Follows true events := by
  obtain ⟨hraised, -, rfl⟩ := Alarm.take?_eq_some_iff.mp htake
  have hreached := h.reached.mp (.inl hraised)
  exact ⟨h.failures, fun _ => hreached, fun _ => .inr rfl⟩

end Follows

/-! ### Runs -/

def Notice.event? : Notice → Option StorageEvent
  | .heard event => some event
  | .listed _ | .setUp _ | .passedOver _ | .dispatched => none

/-- The loop has ended because the alarm was raised. -/
def Service.hasFailed (s : Service) : Bool :=
  match s.stage with
  | .ended (.failed _) => true
  | _ => false

/-- A step tells the alarm what can be told of it, unless the loop takes the alarm and ends. -/
theorem Service.Step.alarm {s t : Service} {notices : List Notice} (h : Step s notices t) :
    (t.alarm = (notices.filterMap Notice.event?).foldl Alarm.hear s.alarm ∧
      t.hasFailed = s.hasFailed) ∨
    (s.stage = .idle ∧ notices = [] ∧ ∃ failure, s.alarm.take? = some (failure, t.alarm) ∧
      t.stage = .ended (.failed failure)) := by
  cases h with
  | fail hstage htake => exact .inr ⟨hstage, rfl, _, htake, rfl⟩
  | @work i host duty duties seeker j =>
    refine .inl ⟨?_, rfl⟩
    cases duty.event? <;> simp [Notice.event?]
  | begin | check | finish | leave | write => exact .inl ⟨rfl, rfl⟩
  | seek _ _ hstage => exact .inl ⟨rfl, by simp [hasFailed, hstage]⟩
  | endRefresh _ hstage => exact .inl ⟨rfl, by simp [hasFailed, hstage]⟩
  | _ hstage => exact .inl ⟨rfl, by simp [hasFailed, hstage]⟩

section Runs

variable {s t : Service} {trace notices : List Notice}

theorem Service.Step.follows (h : Step s notices t) {events : List StorageEvent}
    (hs : s.alarm.Follows s.hasFailed events) :
    t.alarm.Follows t.hasFailed (events ++ notices.filterMap Notice.event?) := by
  rcases h.alarm with ⟨halarm, hfailed⟩ | ⟨-, rfl, failure, htake, hended⟩
  · rw [halarm, hfailed]
    exact hs.hearAll _
  · have htaken : t.hasFailed = true := by rw [hasFailed, hended]
    rw [htaken]
    simpa using hs.take htake

theorem Service.Run.follows {timed : TimedStore} {workers : Nat}
    (h : Run (Service.start timed workers) trace s) :
    s.alarm.Follows s.hasFailed (trace.filterMap Notice.event?) := by
  refine h.invariant Alarm.follows_nil fun hbefore hstep => ?_
  rw [List.filterMap_append]
  exact hstep.follows hbefore

theorem Alarm.raised_hearAll {a : Alarm} (h : a.raised = true) (es : List StorageEvent) :
    (es.foldl Alarm.hear a).raised = true := by
  induction es generalizing a with
  | nil => exact h
  | cons e es ih =>
    refine ih ?_
    cases e <;> simp [hear, h]

theorem Service.Run.hasFailed (h : Run s trace t) (hfailed : s.hasFailed = true) :
    t.hasFailed = true := by
  refine h.invariant hfailed fun hbefore hstep => ?_
  rcases hstep.alarm with ⟨-, hsame⟩ | ⟨-, -, failure, -, hended⟩
  · exact hsame.trans hbefore
  · rw [Service.hasFailed, hended]

/-- A raised alarm stays raised until the loop ends because of it. -/
theorem Service.Run.raised (h : Run s trace t) (hraised : s.alarm.raised = true) :
    t.alarm.raised = true ∨ (s.hasFailed = false ∧ t.hasFailed = true) := by
  induction h with
  | refl => exact .inl hraised
  | @tail trace u notices t hrun hstep ih =>
    change Run s trace u at hrun
    rcases hstep.alarm with ⟨halarm, hsame⟩ | ⟨hidle, -, failure, -, hended⟩
    · rw [halarm, hsame]
      exact ih.imp_left fun h => Alarm.raised_hearAll h _
    · have hnot : u.hasFailed ≠ true := by simp [Service.hasFailed, hidle]
      refine .inr ⟨Bool.eq_false_iff.mpr fun h => hnot (hrun.hasFailed h), ?_⟩
      rw [Service.hasFailed, hended]

/-- The loop ends with a failure only as it takes the alarm. -/
theorem Service.Step.takes {failure : StorageFailure} (h : Step s notices t)
    (hbefore : s.hasFailed = false) (hended : t.stage = .ended (.failed failure)) :
    s.alarm.raised = true ∧ t.alarm.raised = false ∧
      failure = ⟨s.alarm.failures, s.alarm.last⟩ := by
  rcases h.alarm with ⟨-, hsame⟩ | ⟨-, -, failure', htake, hended'⟩
  · rw [hbefore, hasFailed, hended] at hsame
    cases hsame
  · obtain ⟨hraised, rfl, halarm⟩ := Alarm.take?_eq_some_iff.mp htake
    rw [hended] at hended'
    cases hended'
    exact ⟨hraised, by rw [halarm], rfl⟩

end Runs

/-- A store with a host whose times do not read. -/
def unreadableStore : TimedStore :=
  { sampleStore with
    store.database.hosts := [{ id := 1, hostname := "b", firstSeen := "", lastSeen := "" }] }

/-- The fault that comes of reading it. -/
def unreadableFault : Store.Fault := .table (.badTime 6 "")

/-- On a tick over an unreadable store the alarm hears of two failures. -/
theorem run_unreadable {s : Service} (hidle : s.stage = .idle)
    (htimed : s.timed = unreadableStore) :
    Run s [.heard (.failed unreadableFault), .heard (.failed unreadableFault)]
      { s with
        alarm := (s.alarm.hear (.failed unreadableFault)).hear (.failed unreadableFault) } := by
  obtain ⟨timed, alarm, inFlight, free, stage, errands⟩ := s
  cases hidle
  cases htimed
  have hknown : knownHosts unreadableStore.store = .error unreadableFault := by decide +kernel
  have hlisted : unreadableStore.store.hosts {} = .error unreadableFault := by decide +kernel
  have hbegin : Run ⟨unreadableStore, alarm, inFlight, free, .idle, errands⟩ [] _ :=
    (Step.beginTick rfl).run
  have hread := (hbegin.tail (Step.unread rfl hknown)).tail (Step.tellUnread rfl)
  exact (hread.tail (Step.unlisted rfl hlisted)).tail (Step.tellUnlisted rfl)

section Job

variable (t : TimedStore) {t' : TimedStore} (alarm : Alarm) (duties : List Duty)
  {event : StorageEvent}

end Job

end PeerHealth.Scheduler
