import PeerHealth.Journal.Pipeline
import PeerHealth.Proofs.Store.LogWrites

/-! The way of log lines into the store. Main statements: however sending, taking and writing
alternate, each line sent is written once and in its place, unless the writing of its batch fails;
a writer that stops, or drains a channel that nobody sends to, does what it may do step by step. -/

namespace PeerHealth.Journal

open Store (Database Timely)

/-! ### Lines -/

def Field.isMessage (f : Field) : Bool := f.name = "message"

/-- A field that is not the message, as it is shown in a line. -/
def Field.labelled (f : Field) : String := " " ++ f.name ++ "=" ++ f.value.render

/-- The message of an event, if it has one; of several the last comes first. -/
def Event.message (e : Event) : String :=
  String.join ((e.fields.filter Field.isMessage).reverse.map (·.value.render))

def Event.labels (e : Event) : String :=
  String.join ((e.fields.filter (!·.isMessage)).map Field.labelled)

theorem foldl_addField (fields : List Field) (line : String) :
    fields.foldl addField line =
      String.join ((fields.filter Field.isMessage).reverse.map (·.value.render)) ++ line ++
        String.join ((fields.filter (!·.isMessage)).map Field.labelled) := by
  induction fields generalizing line with
  | nil => simp
  | cons f fields ih =>
    rw [List.foldl_cons, ih]
    by_cases hf : f.name = "message"
    · have hmessage : f.isMessage = true := decide_eq_true hf
      simp [addField, hf, hmessage, String.join_append, String.append_assoc]
    · have hmessage : f.isMessage = false := decide_eq_false hf
      simp [addField, hf, hmessage, Field.labelled, String.append_assoc]

/-- Wherever the message stands among the fields, the line begins with it. -/
theorem Event.line_eq (e : Event) : e.line = e.message ++ e.labels := by
  rw [line, foldl_addField, String.append_empty]
  rfl

/-! ### Steps -/

def Notice.sent? : Notice → Option Entry
  | .sent entry => some entry
  | .late _ | .written _ | .lost _ => none

/-- The batch that was to be written. -/
def Notice.batch? : Notice → Option (List Entry)
  | .written batch | .lost batch => some batch
  | .sent _ | .late _ => none

def Notice.written? : Notice → Option (List Entry)
  | .written batch => some batch
  | .sent _ | .late _ | .lost _ => none

/-- The lines sent while the writer took what was in the channel. -/
def sentIn (trace : List Notice) : List Entry := trace.filterMap Notice.sent?

/-- The lines of the batches that the writer made, whether they were written or not. -/
def batchedIn (trace : List Notice) : List Entry := (trace.filterMap Notice.batch?).flatten

def writtenIn (trace : List Notice) : List Entry := (trace.filterMap Notice.written?).flatten

section Traces

variable (trace : List Notice) (notice : Notice)

theorem sentIn_snoc : sentIn (trace ++ [notice]) = sentIn trace ++ notice.sent?.toList := by
  rw [sentIn, List.filterMap_append]
  cases notice <;> rfl

theorem batchedIn_snoc :
    batchedIn (trace ++ [notice]) = batchedIn trace ++ notice.batch?.getD [] := by
  rw [batchedIn, List.filterMap_append, List.flatten_append]
  cases notice <;> simp [Notice.batch?, batchedIn]

theorem writtenIn_snoc :
    writtenIn (trace ++ [notice]) = writtenIn trace ++ notice.written?.getD [] := by
  rw [writtenIn, List.filterMap_append, List.flatten_append]
  cases notice <;> simp [Notice.written?, writtenIn]

end Traces

/-- A batch is put at the end of the log, or nothing of it is written. -/
theorem Sink.Atomic.cases {sink : Sink} (h : sink.Atomic) {store : Store} {lines batch : List Entry}
    (hlog : store.database.KeepsLog lines) (htimes : Timely batch) :
    (∃ after, sink batch store = (.ok (), { store with database := after }) ∧
      after.KeepsLog (lines ++ batch)) ∨
    ∃ fault, sink batch store = (.error fault, store) := by
  rcases h batch store with hwrite | hfail
  · rw [hwrite]
    exact Store.addLogs_cases hlog htimes
  · exact .inr hfail

namespace Pipeline

/-- What the writer is still to take. -/
def awaited (p : Pipeline) : List Entry := if p.isTaking then p.channel else []

/-- The lines sent are in batches, collected or awaited, in this order, and the log holds what it
held before and the batches that were written. -/
structure Carries (lines : List Entry) (trace : List Notice) (p : Pipeline) : Prop where
  order : batchedIn trace ++ p.collected ++ p.awaited = sentIn trace
  log : p.store.database.KeepsLog (lines ++ writtenIn trace)
  timely : Timely (p.collected ++ p.channel)

section Steps

variable {p q : Pipeline} {lines : List Entry} {trace notices : List Notice} {sink : Sink}

theorem awaited_of_taking (h : p.isTaking = true) : p.awaited = p.channel := if_pos h

theorem awaited_of_not_taking (h : ¬ p.isTaking = true) : p.awaited = [] := if_neg h

theorem awaited_of_empty (h : p.channel = []) : p.awaited = [] := by
  rw [awaited, h, ite_self]

@[simp] theorem isTaking_take : p.take.isTaking = p.isTaking := by
  unfold take
  split <;> rfl

/-- What is taken was the next in the channel. -/
theorem take_eq : p.take.collected ++ p.take.channel = p.collected ++ p.channel := by
  unfold take
  split
  · rfl
  · rename_i e channel h
    rw [h, List.append_assoc]
    rfl

theorem Carries.take (h : p.Carries lines trace) (htaking : p.isTaking = true) :
    p.take.Carries lines trace := by
  have hstore : p.take.store = p.store := by
    unfold Pipeline.take
    split <;> rfl
  refine ⟨?_, hstore ▸ h.log, by rw [take_eq]; exact h.timely⟩
  rw [awaited_of_taking (isTaking_take.trans htaking), List.append_assoc, take_eq,
    ← List.append_assoc, ← awaited_of_taking htaking]
  exact h.order

theorem flush_fields (p : Pipeline) (sink : Sink) :
    (p.flush sink).channel = p.channel ∧ (p.flush sink).collected = [] ∧
      (p.flush sink).stage = p.stage ∧ (p.flush sink).deserted = p.deserted := by
  unfold flush
  split
  · rename_i h
    exact ⟨rfl, h, rfl, rfl⟩
  · exact ⟨rfl, rfl, rfl, rfl⟩

/-- What has been collected becomes a batch, which is written or lost. -/
theorem Carries.flush (h : p.Carries lines trace) (hsink : sink.Atomic) :
    (p.flush sink).Carries lines (trace ++ p.flushed sink) := by
  by_cases hnone : p.collected = []
  · rw [Pipeline.flush, flushed, if_pos hnone, if_pos hnone, List.append_nil]
    exact h
  · have hpending : Timely p.collected := fun e he => h.timely e (List.mem_append_left _ he)
    have hchannel : Timely p.channel := fun e he => h.timely e (List.mem_append_right _ he)
    have horder (notice : Notice) (hbatch : notice.batch? = some p.collected)
        (hsent : notice.sent? = none) :
        batchedIn (trace ++ [notice]) ++ [] ++ p.awaited = sentIn (trace ++ [notice]) := by
      rw [batchedIn_snoc, hbatch, sentIn_snoc, hsent]
      simpa using h.order
    rw [Pipeline.flush, flushed, if_neg hnone, if_neg hnone]
    rcases hsink.cases h.log hpending with ⟨after, hwrite, hlog⟩ | ⟨fault, hfail⟩
    · have hwritten : after.KeepsLog (lines ++ writtenIn (trace ++ [.written p.collected])) := by
        rw [writtenIn_snoc, ← List.append_assoc]
        exact hlog
      rw [hwrite]
      exact ⟨horder (.written p.collected) rfl rfl, hwritten, hchannel⟩
    · have hlog :
          p.store.database.KeepsLog (lines ++ writtenIn (trace ++ [.lost p.collected])) := by
        rw [writtenIn_snoc]
        simpa [Notice.written?] using h.log
      rw [hfail]
      exact ⟨horder (.lost p.collected) rfl rfl, hlog, hchannel⟩

/-- An event that is sent comes to the end of the channel. -/
theorem Carries.offer (h : p.Carries lines trace) (e : Event) {now : Time.Instant}
    (hnow : now.Valid) : (p.offer e now).Carries lines (trace ++ p.offered e now) := by
  unfold Pipeline.offer offered
  split
  · let next : Pipeline := { p with channel := p.channel ++ [e.entry now] }
    have htimely : Timely (p.collected ++ next.channel) := by
      intro entry hentry
      rw [← List.append_assoc, List.mem_append, List.mem_singleton] at hentry
      rcases hentry with hentry | rfl
      · exact h.timely entry hentry
      · exact hnow
    have hlog (notice : Notice) (hnotice : notice.written? = none) :
        p.store.database.KeepsLog (lines ++ writtenIn (trace ++ [notice])) := by
      rw [writtenIn_snoc, hnotice]
      simpa using h.log
    have horder := h.order
    by_cases htaking : p.isTaking = true
    · have hawaited : next.awaited = p.channel ++ [e.entry now] := awaited_of_taking htaking
      rw [awaited_of_taking htaking] at horder
      rw [if_pos htaking]
      refine ⟨?_, hlog _ rfl, htimely⟩
      show _ ++ p.collected ++ next.awaited = _
      simp [hawaited, batchedIn_snoc, sentIn_snoc, Notice.batch?, Notice.sent?, ← horder]
    · -- the channel takes the line, but there is nobody to take it from there
      have hawaited : next.awaited = [] := awaited_of_not_taking htaking
      rw [awaited_of_not_taking htaking] at horder
      rw [if_neg htaking]
      refine ⟨?_, hlog _ rfl, htimely⟩
      show _ ++ p.collected ++ next.awaited = _
      simp [hawaited, batchedIn_snoc, sentIn_snoc, Notice.batch?, Notice.sent?, ← horder]
  · rw [List.append_nil]
    exact h

/-- What the writer awaits stays what it was as it is told to stop. -/
theorem Carries.stop (h : p.Carries lines trace) (hstage : p.stage = .running) :
    Carries lines trace { p with stage := .draining } := by
  refine ⟨?_, h.log, h.timely⟩
  have horder := h.order
  rw [awaited_of_taking (by simp [isTaking, hstage])] at horder
  exact horder

/-- Nothing is awaited from an empty channel. -/
theorem Carries.leave (h : p.Carries lines trace) (hempty : p.awaited = []) {stage : Stage}
    (hstage : stage = .closing ∨ stage = .ended) : Carries lines trace { p with stage } := by
  refine ⟨?_, h.log, h.timely⟩
  have horder := h.order
  rw [hempty] at horder
  rcases hstage with rfl | rfl <;> exact horder

theorem Carries.step (h : p.Carries lines trace) (hstep : Step p notices q) :
    q.Carries lines (trace ++ notices) := by
  cases hstep with
  | offer e hnow => exact h.offer e hnow
  | desert => exact (List.append_nil trace).symm ▸ ⟨h.order, h.log, h.timely⟩
  | receive hsink hstage hne =>
    have htake := h.take (by simp [isTaking, hstage])
    unfold receive received
    split
    · exact htake.flush hsink
    · rwa [List.append_nil]
  | flush hsink hstage => exact h.flush hsink
  | close hsink hstage hdeserted hempty =>
    refine (h.flush hsink).leave (awaited_of_empty ?_) (.inr rfl)
    rw [(flush_fields p _).1, hempty]
  | stop hstage => exact (List.append_nil trace).symm ▸ h.stop hstage
  | take hstage hne =>
    rw [List.append_nil]
    exact h.take (by simp [isTaking, hstage])
  | drained hstage hempty =>
    rw [List.append_nil]
    exact h.leave (awaited_of_empty hempty) (.inl rfl)
  | finish hsink hstage =>
    refine (h.flush hsink).leave (awaited_of_not_taking ?_) (.inr rfl)
    simp [isTaking, (flush_fields p _).2.2.1, hstage]
  | write store hlogs hlast =>
    rw [List.append_nil]
    exact ⟨h.order, h.log.congr hlogs hlast, h.timely⟩

/-- Between its steps a running writer has less than a batch, and once it has ended it has
nothing. -/
structure Settled (p : Pipeline) : Prop where
  room : p.stage = .running → p.collected.length < batchSize
  ended : p.stage = .ended → p.collected = []

theorem settled_of_empty (h : p.collected = []) : p.Settled :=
  ⟨fun _ => by rw [h]; decide, fun _ => h⟩

theorem settled_flush (p : Pipeline) (sink : Sink) : (p.flush sink).Settled :=
  settled_of_empty (flush_fields p sink).2.1

theorem settled_close (p : Pipeline) (sink : Sink) : (p.close sink).Settled :=
  settled_of_empty (flush_fields p sink).2.1

@[simp] theorem stage_take : p.take.stage = p.stage := by
  unfold take
  split <;> rfl

theorem Settled.step (h : p.Settled) (hstep : Step p notices q) : q.Settled := by
  cases hstep with
  | offer e hnow =>
    unfold offer
    split
    · exact ⟨h.room, h.ended⟩
    · exact h
  | desert => exact ⟨h.room, h.ended⟩
  | receive hsink hstage hne =>
    unfold receive
    split
    · exact settled_flush ..
    · rename_i hnot
      refine ⟨fun _ => ?_, fun hended => ?_⟩
      · simpa [isFull] using hnot
      · rw [stage_take, hstage] at hended
        cases hended
  | flush => exact settled_flush ..
  | close | finish => exact settled_close ..
  | take hstage hne =>
    refine ⟨fun hrunning => ?_, fun hended => ?_⟩
    · rw [stage_take, hstage] at hrunning
      cases hrunning
    · rw [stage_take, hstage] at hended
      cases hended
  | stop | drained => exact ⟨fun h => Stage.noConfusion h, fun h => Stage.noConfusion h⟩
  | write store => exact ⟨h.room, h.ended⟩

theorem sentIn_flushed (p : Pipeline) (sink : Sink) : sentIn (p.flushed sink) = [] := by
  unfold flushed
  split
  · rfl
  · split <;> rfl

/-- An event is sent if it is to be kept and the channel has room, and the writer will take it if
it has not come too late. -/
theorem sentIn_offered (p : Pipeline) (e : Event) (now : Time.Instant) :
    sentIn (p.offered e now) = if p.accepts e ∧ p.isTaking then [e.entry now] else [] := by
  unfold offered
  by_cases haccepts : p.accepts e = true
  · by_cases htaking : p.isTaking = true
    · rw [if_pos haccepts, if_pos htaking, if_pos ⟨haccepts, htaking⟩]
      rfl
    · rw [if_pos haccepts, if_neg htaking, if_neg fun h => htaking h.2]
      rfl
  · rw [if_neg haccepts, if_neg fun h => haccepts h.1]
    rfl

/-- Nothing is sent but what is offered. -/
theorem Step.sends (h : Step p notices q) :
    (∃ e now, notices = p.offered e now ∧ q = p.offer e now) ∨ sentIn notices = [] := by
  cases h with
  | @offer e now hnow => exact .inl ⟨e, now, rfl, rfl⟩
  | receive =>
    refine .inr ?_
    unfold received
    split
    · exact sentIn_flushed ..
    · rfl
  | flush | close | finish => exact .inr (sentIn_flushed ..)
  | _ => exact .inr rfl

/-- Whatever else is written to the store leaves the log. -/
theorem Step.of_write (p : Pipeline) {w : Store.Write} (hw : w.isLog = false) :
    Step p [] { p with store := p.store.apply w } :=
  have hsame := Prod.ext_iff.mp (Store.journal_apply p.store hw)
  .write _ hsame.1 hsame.2

end Steps

/-! ### Runs without anything between -/

section Alone

variable {p q : Pipeline} {sink : Sink}

theorem Step.run {notices : List Notice} (h : Step p notices q) : Run p notices q := .single h

theorem run_takeAll (hstage : p.stage = .draining) :
    Run p [] { p with channel := [], collected := p.collected ++ p.channel } := by
  obtain ⟨capacity, channel, collected, store, stage, deserted⟩ := p
  induction channel generalizing collected with
  | nil =>
    rw [List.append_nil]
    exact .refl
  | cons e channel ih =>
    have hrest := ih (collected ++ [e]) hstage
    rw [← List.append_cons] at hrest
    exact (Step.take hstage (List.cons_ne_nil _ _)).run.trans hrest

theorem flush_stage (p : Pipeline) (sink : Sink) (stage : Stage) :
    flush { p with stage } sink = { p.flush sink with stage } := by
  unfold flush
  split <;> rfl

theorem run_stop (hsink : sink.Atomic) (hstage : p.stage = .running) :
    Run p (flushed { p with channel := [], collected := p.collected ++ p.channel } sink)
      (p.stop sink) := by
  let told : Pipeline := { p with stage := .draining }
  let all : Pipeline := { p with channel := [], collected := p.collected ++ p.channel }
  have htaken : Run p [] { all with stage := .draining } :=
    (Step.stop hstage).run.trans (run_takeAll (p := told) rfl)
  have hclosing : Run p [] { all with stage := .closing } := htaken.tail (.drained rfl rfl)
  have hend := hclosing.tail (.finish hsink rfl)
  rw [close, flush_stage] at hend
  exact hend

theorem receive_fields (p : Pipeline) (sink : Sink) :
    (p.receive sink).channel = p.channel.tail ∧ (p.receive sink).stage = p.stage ∧
      (p.receive sink).deserted = p.deserted := by
  have htake : p.take.channel = p.channel.tail ∧ p.take.stage = p.stage ∧
      p.take.deserted = p.deserted := by
    unfold take
    split
    · rename_i h
      exact ⟨by rw [h]; rfl, rfl, rfl⟩
    · rename_i h
      exact ⟨by rw [h]; rfl, rfl, rfl⟩
  unfold receive
  split
  · obtain ⟨hchannel, -, hstage, hdeserted⟩ := flush_fields p.take sink
    exact ⟨hchannel.trans htake.1, hstage.trans htake.2.1, hdeserted.trans htake.2.2⟩
  · exact htake

/-- With nobody left to send, the writer receives what is in the channel and ends. -/
theorem run_drain (hsink : sink.Atomic) (hstage : p.stage = .running)
    (hdeserted : p.deserted = true) : ∃ trace, Run p trace (p.drain sink) := by
  unfold drain
  generalize hchannel : p.channel = channel
  induction channel generalizing p with
  | nil => exact ⟨_, (Step.close hsink hstage hdeserted hchannel).run⟩
  | cons e channel ih =>
    obtain ⟨htail, hsame, hstill⟩ := receive_fields p sink
    rw [hchannel] at htail
    obtain ⟨trace, hrest⟩ := ih (hsame.trans hstage) (hstill.trans hdeserted) htail
    have hne : p.channel ≠ [] := by simp [hchannel]
    exact ⟨_, (Step.receive hsink hstage hne).run.trans hrest⟩

/-- A writer that is told to stop, or that nobody is left to send to, comes to its end when nothing
comes between its steps. -/
theorem endings_are_runs (p : Pipeline) (hsink : sink.Atomic) (hstage : p.stage = .running) :
    (∃ trace, Run p trace (p.stop sink)) ∧
      (p.deserted = true → ∃ trace, Run p trace (p.drain sink)) :=
  ⟨⟨_, run_stop hsink hstage⟩, run_drain hsink hstage⟩

end Alone

/-! ### Runs -/

section Runs

variable {start p : Pipeline} {lines : List Entry} {trace : List Notice}

theorem Run.eq_entry (h : Run start trace p) :
    ∀ entry ∈ sentIn trace, ∃ e now, Event.isKept e = true ∧ entry = e.entry now := by
  refine h.invariant (fun _ hmem => absurd hmem List.not_mem_nil) fun hbefore hstep entry hmem => ?_
  rw [sentIn, List.filterMap_append, List.mem_append] at hmem
  rcases hmem with hmem | hmem
  · exact hbefore entry hmem
  · change entry ∈ sentIn _ at hmem
    rcases hstep.sends with ⟨e, now, rfl, -⟩ | hnone
    · rw [sentIn_offered] at hmem
      split at hmem
      · rename_i haccepts
        simp only [accepts, Bool.and_eq_true] at haccepts
        exact ⟨e, now, haccepts.1.1.1.1, List.mem_singleton.mp hmem⟩
      · cases hmem
    · rw [hnone] at hmem
      cases hmem

/-- If no batch is lost, all that was in batches is written. -/
theorem writtenIn_eq (h : ∀ batch, .lost batch ∉ trace) : writtenIn trace = batchedIn trace := by
  refine congrArg List.flatten (List.filterMap_congr fun notice hnotice => ?_)
  cases notice with
  | lost batch => exact absurd hnotice (h batch)
  | _ => rfl

/-- However sending, taking and writing alternate, and whatever else is written to the store, the
lines sent are in batches, collected or awaited in the order in which they were sent, and the log
holds what it held before and the batches that could be written. Every write to the store that is
not of log lines may come in between, and a writer that runs may stop or drain the channel at any
moment. So when the writer has ended, the log has each line sent while the writer took lines, once
and in its place, but for the batches that were lost, and the newest lines can be read. A writer
that runs has less than a batch when it waits. What is sent is just what is offered, is to be kept
and finds room: its message, wherever that stood, and then its other fields by name. -/
theorem log_holds_what_was_sent {capacity : Nat} {store : Store}
    (hstart : ofCapacity? capacity store = some start) (hlog : store.database.KeepsLog lines)
    (h : Run start trace p) :
    (p.stage = .running → p.collected.length < batchSize) ∧
    batchedIn trace ++ p.collected ++ p.awaited = sentIn trace ∧
    p.store.database.KeepsLog (lines ++ writtenIn trace) ∧
    (∀ w : Store.Write, w.isLog = false → Step p [] { p with store := p.store.apply w }) ∧
    (p.stage = .running → ∀ sink : Sink, sink.Atomic →
      (∃ rest, Run p rest (p.stop sink)) ∧
        (p.deserted = true → ∃ rest, Run p rest (p.drain sink))) ∧
    (p.stage = .ended →
      batchedIn trace = sentIn trace ∧
      ((∀ batch, .lost batch ∉ trace) → writtenIn trace = sentIn trace) ∧
      ∀ limit, p.store.logs limit = .ok ((lines ++ writtenIn trace).reverse.take limit)) ∧
    (∀ e now, sentIn (p.offered e now) =
      if p.accepts e ∧ p.isTaking then [e.entry now] else []) ∧
    (∀ notices q, Step p notices q →
      (∃ e now, notices = p.offered e now ∧ q = p.offer e now) ∨ sentIn notices = []) ∧
    ∀ entry ∈ sentIn trace, ∃ e now, Event.isKept e = true ∧ entry = e.entry now ∧
      entry.message = e.message ++ e.labels := by
  obtain rfl : start = { capacity, store } := by
    unfold ofCapacity? at hstart
    split at hstart
    · cases hstart
    · exact (Option.some.inj hstart).symm
  have hcarries : p.Carries lines trace := h.invariant
    ⟨rfl, (List.append_nil lines).symm ▸ hlog, fun _ he => absurd he List.not_mem_nil⟩ Carries.step
  have hsettled : p.Settled := h.invariant (settled_of_empty rfl) Settled.step
  refine ⟨hsettled.room, hcarries.order, hcarries.log, fun _ => Step.of_write p,
    fun hstage _ hsink => endings_are_runs p hsink hstage, fun hended => ?_, sentIn_offered p,
    fun _ _ hstep => hstep.sends, fun entry hentry => ?_⟩
  · have horder := hcarries.order
    rw [hsettled.ended hended, awaited_of_not_taking (by simp [isTaking, hended]), List.append_nil,
      List.append_nil] at horder
    exact ⟨horder, fun hnone => (writtenIn_eq hnone).trans horder, Store.logs_eq hcarries.log⟩
  · obtain ⟨e, now, hkept, rfl⟩ := h.eq_entry entry hentry
    exact ⟨e, now, hkept, rfl, e.line_eq⟩

end Runs

def admitted : Event :=
  { level := .info, target := "meshwatch::scheduler"
    fields := [⟨"host", .text "b"⟩, ⟨"message", .text "Admitted host"⟩] }

def admittedLine : Entry :=
  { level := "INFO", target := "meshwatch::scheduler", message := "Admitted host host=b"
    createdAt := Time.epoch.1 }

/-- Of two events the channel has room for the first, and the writer is told to stop before it has
taken any. -/
theorem log_holds_what_was_sent_of_stopped :
    ∃ start trace p, ofCapacity? 1 {} = some start ∧ Run start trace p ∧ p.stage = .ended ∧
      sentIn trace = [admittedLine] ∧ p.store.logs 10 = .ok [admittedLine] := by
  let start : Pipeline := { capacity := 1, store := {} }
  let full : Pipeline := { start with channel := [admittedLine] }
  have hfirst : Run start [.sent admittedLine] full := by
    have hoffer := (Step.offer (p := start) admitted Time.epoch.2).run
    have hoffered : start.offered admitted Time.epoch.1 = [.sent admittedLine] := by decide +kernel
    have hentry : admitted.entry Time.epoch.1 = admittedLine := by decide +kernel
    rw [hoffered, Pipeline.offer, hentry, if_pos (by decide +kernel)] at hoffer
    exact hoffer
  have hsecond : Step full [] full := by
    have hoffer := Step.offer (p := full) admitted Time.epoch.2
    have hfull : ¬ full.accepts admitted = true := by decide +kernel
    rwa [offered, Pipeline.offer, if_neg hfull, if_neg hfull] at hoffer
  have hlog : Sink.log.Atomic := fun _ _ => .inl rfl
  have hstop := run_stop (p := full) hlog rfl
  have hwritten : flushed { full with
      channel := [], collected := full.collected ++ full.channel } Sink.log =
        [.written [admittedLine]] := by decide +kernel
  rw [hwritten] at hstop
  have hrun := (hfirst.tail hsecond).trans hstop
  have hended : (full.stop Sink.log).stage = .ended := rfl
  have hstart : ofCapacity? 1 {} = some start := rfl
  obtain ⟨-, -, -, -, -, hend, -⟩ := log_holds_what_was_sent hstart Store.keepsLog_empty hrun
  exact ⟨start, _, _, hstart, hrun, hended, rfl, (hend hended).2.2 10⟩

end Pipeline
end PeerHealth.Journal
