import PeerHealth.Journal.Event
import PeerHealth.Store.Logs
import PeerHealth.Trace

/-! The way of log lines into the store: a channel that holds a limited number of them and drops
what comes when it is full, and a writer that collects lines and writes them in batches. -/

namespace PeerHealth.Journal

/-- The number of collected lines at which they are written. -/
def batchSize : Nat := 500

/-- How far the writer is. -/
inductive Stage where
  | running
  /-- It was told to stop, and takes what is in the channel. -/
  | draining
  /-- It has found nothing more in the channel, and writes for the last time. -/
  | closing
  /-- It has ended, and nothing can be sent to it any more. -/
  | ended
deriving DecidableEq, Repr

structure Pipeline where
  capacity : Nat
  /-- What the channel holds, in the order sent. -/
  channel : List Entry := []
  /-- What the writer has collected and not written yet. -/
  collected : List Entry := []
  store : Store
  stage : Stage := .running
  /-- There is nobody left to send. -/
  deserted : Bool := false

abbrev Sink := List Entry → Store → Except Store.Fault Unit × Store

def Sink.log : Sink := fun entries store => store.addLogs entries

/-- Lines are written as the store writes them, or a fault leaves the store as it was. -/
def Sink.Atomic (sink : Sink) : Prop :=
  ∀ entries store, sink entries store = store.addLogs entries ∨
    ∃ fault, sink entries store = (.error fault, store)

/-- What can be told of a step. -/
inductive Notice where
  | sent (entry : Entry)
  /-- It was sent when the writer had taken all it was to take. -/
  | late (entry : Entry)
  | written (batch : List Entry)
  /-- The batch could not be written. -/
  | lost (batch : List Entry)
deriving DecidableEq, Repr

namespace Pipeline

/-- The first capacity that a channel cannot have. -/
def capacityLimit : Nat := 2305843009213693952

/-- A channel of some capacity, at least one and below the limit, to a store. -/
def ofCapacity? (capacity : Nat) (store : Store) : Option Pipeline :=
  if capacity = 0 ∨ capacityLimit ≤ capacity then none else some { capacity, store }

/-- Whether an event is sent: not if it is not to be kept or the channel is full. -/
def accepts (p : Pipeline) (e : Event) : Bool :=
  e.isKept && decide (p.channel.length < p.capacity) && !p.deserted && p.stage ≠ .ended

def offer (p : Pipeline) (e : Event) (now : Time.Instant) : Pipeline :=
  if p.accepts e then { p with channel := p.channel ++ [e.entry now] } else p

/-- The writer takes more than it has collected. -/
def isTaking (p : Pipeline) : Bool := p.stage = .running || p.stage = .draining

def offered (p : Pipeline) (e : Event) (now : Time.Instant) : List Notice :=
  if p.accepts e then [if p.isTaking then .sent (e.entry now) else .late (e.entry now)] else []

/-- Writes what has been collected. If that fails, the batch is lost. -/
def flush (p : Pipeline) (sink : Sink) : Pipeline :=
  if p.collected = [] then p else { p with collected := [], store := (sink p.collected p.store).2 }

def flushed (p : Pipeline) (sink : Sink) : List Notice :=
  if p.collected = [] then []
  else match (sink p.collected p.store).1 with
    | .ok _ => [.written p.collected]
    | .error _ => [.lost p.collected]

def take (p : Pipeline) : Pipeline :=
  match p.channel with
  | [] => p
  | e :: channel => { p with channel, collected := p.collected ++ [e] }

def isFull (p : Pipeline) : Bool := decide (batchSize ≤ p.collected.length)

/-- Takes one line from the channel; a full batch is written at once. -/
def receive (p : Pipeline) (sink : Sink) : Pipeline :=
  if p.take.isFull then p.take.flush sink else p.take

def received (p : Pipeline) (sink : Sink) : List Notice :=
  if p.take.isFull then p.take.flushed sink else []

def close (p : Pipeline) (sink : Sink) : Pipeline := { p.flush sink with stage := .ended }

/-- The writer is told to stop: it takes what is in the channel, writes it and ends. -/
def stop (p : Pipeline) (sink : Sink) : Pipeline :=
  { p with channel := [], collected := p.collected ++ p.channel }.close sink

/-- Takes all that is in the channel, one line after the other, and closes. -/
def drain (p : Pipeline) (sink : Sink) : Pipeline :=
  (p.channel.foldl (fun p _ => p.receive sink) p).close sink

/-- What may happen next, and what can be told of it. Each time that lines are written, the writing
may fail. -/
inductive Step : Pipeline → List Notice → Pipeline → Prop
  | offer {p} (e : Event) {now : Time.Instant} : now.Valid →
      Step p (p.offered e now) (p.offer e now)
  | desert {p} : Step p [] { p with deserted := true }
  | receive {p} {sink : Sink} : sink.Atomic → p.stage = .running → p.channel ≠ [] →
      Step p (p.received sink) (p.receive sink)
  | flush {p} {sink : Sink} : sink.Atomic → p.stage = .running →
      Step p (p.flushed sink) (p.flush sink)
  /-- There is nothing left in the channel and nobody to send. -/
  | close {p} {sink : Sink} : sink.Atomic → p.stage = .running → p.deserted = true →
      p.channel = [] → Step p (p.flushed sink) (p.close sink)
  | stop {p} : p.stage = .running → Step p [] { p with stage := .draining }
  | take {p} : p.stage = .draining → p.channel ≠ [] → Step p [] p.take
  | drained {p} : p.stage = .draining → p.channel = [] → Step p [] { p with stage := .closing }
  | finish {p} {sink : Sink} : sink.Atomic → p.stage = .closing →
      Step p (p.flushed sink) (p.close sink)
  /-- Others write to the store, but not to the log. -/
  | write {p} (store : Store) : store.database.logs = p.store.database.logs →
      store.database.lastLog = p.store.database.lastLog → Step p [] { p with store }

abbrev Run : Pipeline → List Notice → Pipeline → Prop := Trace.Run Step

end Pipeline
end PeerHealth.Journal
