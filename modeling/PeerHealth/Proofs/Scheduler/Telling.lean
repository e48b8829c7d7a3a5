import PeerHealth.Proofs.Scheduler.Occupancy

/-! What there is to tell of writes. Main statements: a job that has written to the store has just
that to tell next which the answer of the store calls for, hosts that cannot be read are told of as
a failure, and whatever is told has come of one of these. -/

namespace PeerHealth.Scheduler

open Service (Run Step)
open Store (Fault)

/-! ### Answers of the store -/

/-- What there is to tell of an attempt to record a check: that it was recorded, that its host is
gone, or else what has failed. -/
inductive ToldOfRecord : Except Fault Check → StorageEvent → Prop
  | recorded (check : Check) : ToldOfRecord (.ok check) .recorded
  | hostGone : ToldOfRecord (.error .notFound) .hostGone
  | failed {fault : Fault} (other : fault ≠ .notFound) :
      ToldOfRecord (.error fault) (.failed fault)

/-- What there is to tell of an attempt to record what a peer says of itself: what has failed,
unless it is that the peer is not there or that another has what it claims. -/
inductive ToldOfUpsert : Except Fault Host → StorageEvent → Prop
  | upserted (host : Host) : ToldOfUpsert (.ok host) .upserted
  | notFound : ToldOfUpsert (.error .notFound) .upserted
  | conflict (reason : String) : ToldOfUpsert (.error (.conflict reason)) .upserted
  | failed {fault : Fault} (there : fault ≠ .notFound)
      (agrees : ∀ reason, fault ≠ .conflict reason) :
      ToldOfUpsert (.error fault) (.failed fault)

theorem toldOfRecord (answer : Except Fault Check) : ToldOfRecord answer (recordEvent answer) := by
  cases answer with
  | ok check => exact .recorded check
  | error fault =>
    cases fault with
    | notFound => exact .hostGone
    | _ => exact .failed Fault.noConfusion

theorem toldOfUpsert (answer : Except Fault Host) : ToldOfUpsert answer (observeEvent answer) := by
  cases answer with
  | ok host => exact .upserted host
  | error fault =>
    cases fault with
    | notFound => exact .notFound
    | conflict reason => exact .conflict reason
    | _ => exact .failed Fault.noConfusion fun _ => Fault.noConfusion

/-- The attempt to record a check of a host. -/
abbrev recordAttempt (t : TimedStore) (host : Host) (result : CheckResult) :
    Except Fault Check × TimedStore :=
  t.write fun store now => store.recordCheck now host.id result

/-- The attempt to record what a peer says of itself. -/
abbrev upsertAttempt (t : TimedStore) (d : Wire.Document) : Except Fault Host × TimedStore :=
  t.write fun store now => store.upsertHost now (d.toIdentity "" 0)

/-- What is done at once for a check or a body tells the alarm what came of it. -/
structure Tells (c : Scheduler) : Prop where
  record : ∀ host result, ∃ event, ToldOfRecord (recordAttempt c.timed host result).1 event ∧
    c.record host result =
      { c with timed := (recordAttempt c.timed host result).2, alarm := c.alarm.hear event }
  observe : ∀ host body d, Wire.Document.ofBytes? (Text.Utf8.encode body) = .ok d →
    d.hostname = host.hostname →
    ∃ event, ToldOfUpsert (upsertAttempt c.timed d).1 event ∧
      c.observe host body =
        { c with timed := (upsertAttempt c.timed d).2, alarm := c.alarm.hear event }

theorem tells (c : Scheduler) : Tells c where
  record _ _ := ⟨_, toldOfRecord _, rfl⟩
  observe _ _ _ hread hname :=
    ⟨_, toldOfUpsert _, by simp only [Scheduler.observe, hread, if_pos hname]; rfl⟩

/-! ### Steps -/

/-- What there is to tell once `s` does what is next: the answer to the write of a job, or that the
loop cannot read the hosts. -/
inductive Service.BringsAbout (s : Service) : StorageEvent → Prop
  | record {host : Host} {result : CheckResult} {duties : List Duty} {event : StorageEvent} :
      ⟨host, .working (.task (.record result) :: duties)⟩ ∈ s.errands →
      ToldOfRecord (recordAttempt s.timed host result).1 event → BringsAbout s event
  | observe {host : Host} {body : String} {d : Wire.Document} {duties : List Duty}
      {event : StorageEvent} :
      ⟨host, .working (.task (.observe body) :: duties)⟩ ∈ s.errands →
      Wire.Document.ofBytes? (Text.Utf8.encode body) = .ok d → d.hostname = host.hostname →
      ToldOfUpsert (upsertAttempt s.timed d).1 event → BringsAbout s event
  | unread {fault : Fault} : s.stage = .resolving → knownHosts s.timed.store = .error fault →
      BringsAbout s (.failed fault)
  | unlisted {fault : Fault} : s.stage = .listing → s.timed.store.hosts {} = .error fault →
      BringsAbout s (.failed fault)

/-- The service has this to tell next. -/
inductive Service.HasToTell (s : Service) : StorageEvent → Prop
  | job {host : Host} {event : StorageEvent} {duties : List Duty} :
      ⟨host, .working (.tell event :: duties)⟩ ∈ s.errands → HasToTell s event
  | unread {fault : Fault} : s.stage = .unread fault → HasToTell s (.failed fault)
  | unlisted {fault : Fault} : s.stage = .unlisted fault → HasToTell s (.failed fault)

/-- A job with these duties is still there, or it has come to its end before it did them. -/
def Service.StillHas (t : Service) (host : Host) (duties : List Duty) : Prop :=
  ⟨host, .working duties⟩ ∈ t.errands ∨ ⟨host, .leaving⟩ ∈ t.errands

section Steps

variable {s t : Service} {notices : List Notice} {host : Host} {duties : List Duty}

theorem mem_of_ne {errands earlier later : List Errand} {e e' : Errand}
    (h : errands = earlier ++ e' :: later) (he : e ∈ errands) (hne : e ≠ e') (e'' : Errand) :
    e ∈ earlier ++ later ∧ e ∈ earlier ++ e'' :: later := by
  rw [h, List.mem_append, List.mem_cons] at he
  simp only [List.mem_append, List.mem_cons]
  rcases he with he | he | he
  · exact ⟨.inl he, .inl he⟩
  · exact absurd he hne
  · exact ⟨.inr he, .inr (.inr he)⟩

/-- What becomes of a job with a duty: it waits for the others, it comes to its end, or it does the
next thing for its duty. -/
theorem Service.Step.duty {duty : Duty} (h : Step s notices t)
    (hjob : ⟨host, .working (duty :: duties)⟩ ∈ s.errands) :
    t.StillHas host (duty :: duties) ∨
      ∃ seeker j, notices = duty.event?.toList.map .heard ∧
        t.timed = (duty.perform seeker j host s.timed).2 ∧
        t.alarm = duty.event?.elim s.alarm s.alarm.hear ∧
        ⟨host, .working ((duty.perform seeker j host s.timed).1 ++ duties)⟩ ∈ t.errands := by
  -- a step of another job leaves this one
  have hset {i : Nat} {e e' : Errand} (herrand : s.errands[i]? = some e)
      (hne : (⟨host, .working (duty :: duties)⟩ : Errand) ≠ e) :
      (⟨host, .working (duty :: duties)⟩ : Errand) ∈ s.errands.set i e' := by
    obtain ⟨earlier, later, hsplit, hset, -⟩ := exists_split herrand
    rw [hset]
    exact (mem_of_ne hsplit hjob hne e').2
  cases h with
  | setUp hstage hnot => exact .inl (.inl (List.mem_append_left _ hjob))
  | begin herrand => exact .inl (.inl (hset herrand (by simp)))
  | check prober herrand => exact .inl (.inl (hset herrand (by simp)))
  | @work i host' duty' duties' seeker j herrand =>
    by_cases hsame : (⟨host, .working (duty :: duties)⟩ : Errand) =
        ⟨host', .working (duty' :: duties')⟩
    · cases hsame
      exact .inr ⟨seeker, j, rfl, rfl, rfl,
        List.mem_set (List.getElem?_eq_some_iff.mp herrand).1 _⟩
    · exact .inl (.inl (hset herrand hsame))
  | @finish i host' progress herrand hne =>
    by_cases hsame : (⟨host, .working (duty :: duties)⟩ : Errand) = ⟨host', progress⟩
    · cases hsame
      exact .inl (.inr (List.mem_set (List.getElem?_eq_some_iff.mp herrand).1 _))
    · exact .inl (.inl (hset herrand hsame))
  | leave herrand =>
    obtain ⟨earlier, later, hsplit, -, herase⟩ := exists_split herrand
    refine .inl (.inl ?_)
    show _ ∈ s.errands.eraseIdx _
    rw [herase]
    exact (mem_of_ne hsplit hjob (by simp) ⟨host, .waiting⟩).1
  | _ => exact .inl (.inl hjob)

theorem Service.Step.hearsOnly (h : Step s notices t) {event : StorageEvent}
    (hmem : .heard event ∈ notices) :
    notices = [.heard event] ∧ t.alarm = s.alarm.hear event ∧ s.HasToTell event := by
  cases h with
  | tellUnread hstage =>
    cases Notice.heard.inj (List.mem_singleton.mp hmem)
    exact ⟨rfl, rfl, .unread hstage⟩
  | tellUnlisted hstage =>
    cases Notice.heard.inj (List.mem_singleton.mp hmem)
    exact ⟨rfl, rfl, .unlisted hstage⟩
  | @work i host duty duties seeker j herrand =>
    cases duty with
    | tell told =>
      cases Notice.heard.inj (List.mem_singleton.mp hmem)
      exact ⟨rfl, rfl, .job (List.mem_of_getElem? herrand)⟩
    | task | seek => simp [Duty.event?] at hmem
  | _ => simp at hmem

/-- Where the duties of a job that works come from. -/
theorem Service.Step.working (h : Step s notices t) (hjob : ⟨host, .working duties⟩ ∈ t.errands) :
    ⟨host, .working duties⟩ ∈ s.errands ∨
      (∃ prober, duties = (tasksOf (results prober host)).map .task) ∨
      ∃ duty rest seeker j, ⟨host, .working (duty :: rest)⟩ ∈ s.errands ∧
        duties = (Duty.perform seeker j host s.timed duty).1 ++ rest := by
  cases h with
  | setUp =>
    refine .inl ((List.mem_append.mp hjob).resolve_right fun hnew => ?_)
    cases List.mem_singleton.mp hnew
  | begin | finish =>
    refine .inl ((List.mem_or_eq_of_mem_set hjob).resolve_right fun hnew => ?_)
    cases hnew
  | check prober =>
    rcases List.mem_or_eq_of_mem_set hjob with hold | hnew
    · exact .inl hold
    · cases hnew
      exact .inr (.inl ⟨prober, rfl⟩)
  | @work i host' duty rest seeker j herrand =>
    rcases List.mem_or_eq_of_mem_set hjob with hold | hnew
    · exact .inl hold
    · cases hnew
      exact .inr (.inr ⟨duty, rest, seeker, j, List.mem_of_getElem? herrand, rfl⟩)
  | leave => exact .inl (List.mem_of_mem_eraseIdx hjob)
  | _ => exact .inl hjob

theorem Service.bringsAbout_of_perform {duty : Duty} {rest : List Duty} {seeker : Seeker} {j : Nat}
    {event : StorageEvent} (hjob : ⟨host, .working (duty :: rest)⟩ ∈ s.errands)
    (hmem : .tell event ∈ (duty.perform seeker j host s.timed).1) : s.BringsAbout event := by
  match duty, hjob, hmem with
  | .task (.record result), hjob, hmem =>
    cases Duty.tell.inj (List.mem_singleton.mp hmem)
    exact .record hjob (toldOfRecord _)
  | .task (.observe body), hjob, hmem =>
    cases hread : Wire.Document.ofBytes? (Text.Utf8.encode body) with
    | error fault => simp [Duty.perform, hread] at hmem
    | ok d =>
      by_cases hname : d.hostname = host.hostname
      · simp only [Duty.perform, hread, if_pos hname] at hmem
        cases Duty.tell.inj (List.mem_singleton.mp hmem)
        exact .observe hjob hread hname (toldOfUpsert _)
      · simp [Duty.perform, hread, hname] at hmem
  | .task .expand, _, hmem => simp [Duty.perform] at hmem
  | .tell _, _, hmem => simp [Duty.perform] at hmem
  | .seek attempts, _, hmem =>
    simp only [Duty.perform] at hmem
    split at hmem <;> simp at hmem

/-- Where the loop has found hosts that cannot be read. -/
theorem Service.Step.unreadable (h : Step s notices t) {fault : Fault}
    (hstage : t.stage = .unread fault ∨ t.stage = .unlisted fault) :
    s.stage = .unread fault ∨ s.stage = .unlisted fault ∨ s.BringsAbout (.failed fault) := by
  cases h with
  | unread hat hread =>
    obtain rfl : _ = fault := by simpa using hstage
    exact .inr (.inr (.unread hat hread))
  | unlisted hat hread =>
    obtain rfl : _ = fault := by simpa using hstage
    exact .inr (.inr (.unlisted hat hread))
  | begin | check | work | finish | leave | write => exact hstage.imp_right .inl
  | _ => simp at hstage

end Steps

/-! ### Runs -/

/-- The steps to a state pass through a moment at which this is brought about. -/
def CameAbout (start : Service) (trace : List Notice) (s : Service) (event : StorageEvent) : Prop :=
  ∃ earlier later u, trace = earlier ++ later ∧ Run start earlier u ∧ Run u later s ∧
    u.BringsAbout event

/-- What a run has told, and what it has to tell, was brought about. -/
structure Accounts (start : Service) (trace : List Notice) (s : Service) : Prop where
  heard : ∀ event, .heard event ∈ trace → CameAbout start trace s event
  job : ∀ host duties event, ⟨host, .working duties⟩ ∈ s.errands → .tell event ∈ duties →
    CameAbout start trace s event
  loop : ∀ fault, s.stage = .unread fault ∨ s.stage = .unlisted fault →
    CameAbout start trace s (.failed fault)

section Runs

variable {start s t : Service} {trace notices : List Notice} {event : StorageEvent}

theorem CameAbout.tail (h : CameAbout start trace s event) (hstep : Step s notices t) :
    CameAbout start (trace ++ notices) t event := by
  obtain ⟨earlier, later, u, rfl, hbefore, hafter, hcause⟩ := h
  exact ⟨earlier, later ++ notices, u, List.append_assoc .., hbefore, hafter.tail hstep, hcause⟩

theorem Service.Run.cameAbout (h : Run start trace s) (hcause : s.BringsAbout event)
    (hstep : Step s notices t) : CameAbout start (trace ++ notices) t event :=
  ⟨trace, notices, s, rfl, h, hstep.run, hcause⟩

theorem Accounts.hasToTell (h : Accounts start trace s) (hnext : s.HasToTell event) :
    CameAbout start trace s event := by
  cases hnext with
  | job hjob => exact h.job _ _ _ hjob (List.mem_cons_self ..)
  | unread hstage => exact h.loop _ (.inl hstage)
  | unlisted hstage => exact h.loop _ (.inr hstage)

/-- What a step tells it had to tell before, and what it has to tell after it had to tell before or
brings about. -/
theorem Accounts.step (h : Accounts start trace s) (hrun : Run start trace s)
    (hstep : Step s notices t) : Accounts start (trace ++ notices) t := by
  refine ⟨fun event hmem => ?_, fun host duties event hjob hmem => ?_, fun fault hstage => ?_⟩
  · rcases List.mem_append.mp hmem with hold | hnew
    · exact (h.heard event hold).tail hstep
    · exact (h.hasToTell (hstep.hearsOnly hnew).2.2).tail hstep
  · rcases hstep.working hjob with hold | ⟨prober, rfl⟩ | ⟨duty, rest, seeker, j, hold, rfl⟩
    · exact (h.job host duties event hold hmem).tail hstep
    · simp at hmem
    · rcases List.mem_append.mp hmem with hnew | hrest
      · exact hrun.cameAbout (Service.bringsAbout_of_perform hold hnew) hstep
      · exact (h.job host _ event hold (List.mem_cons_of_mem _ hrest)).tail hstep
  · rcases hstep.unreadable hstage with hold | hold | hcause
    · exact (h.loop fault (.inl hold)).tail hstep
    · exact (h.loop fault (.inr hold)).tail hstep
    · exact hrun.cameAbout hcause hstep

end Runs
end PeerHealth.Scheduler
