import PeerHealth.Number.Power
import PeerHealth.Store.Fault

/-! Watching over the store: when writes to it fail too often in a row, the alarm is raised, and it
stays raised until it is taken. -/

namespace PeerHealth.Scheduler

/-- The number of failures in a row at which the alarm is raised. -/
def failureLimit : Nat := 5

/-- The failures in a row, the most recent of all failures, and whether the alarm is raised. -/
structure Alarm where
  failures : Nat := 0
  last : Option Store.Fault := none
  raised : Bool := false
deriving DecidableEq, Repr, Inhabited

/-- What ends the scheduler when the alarm is taken. -/
structure StorageFailure where
  failures : Nat
  last : Option Store.Fault
deriving DecidableEq, Repr

def StorageFailure.lastMessage (f : StorageFailure) : String :=
  (f.last.map Store.Fault.message).getD ""

def StorageFailure.message (f : StorageFailure) : String :=
  s!"{f.failures} consecutive storage failures, last: " ++ f.lastMessage

/-- What the alarm hears of. -/
inductive StorageEvent where
  | failed (fault : Store.Fault)
  | recorded
  /-- A check was not recorded because its host is gone. -/
  | hostGone
  /-- What a peer says of itself was recorded, or cannot be for a reason that is not the table's. -/
  | upserted
deriving DecidableEq, Repr

namespace Alarm

/-- Only a recorded check ends a row of failures. They are counted in a word, which goes round after
its highest value. -/
def hear (a : Alarm) : StorageEvent → Alarm
  | .failed fault =>
    let failures := (a.failures + 1) % Number.limit32
    { failures, last := some fault, raised := a.raised || failureLimit ≤ failures }
  | .recorded => { a with failures := 0 }
  | .hostGone | .upserted => a

def take? (a : Alarm) : Option (StorageFailure × Alarm) :=
  if a.raised then some (⟨a.failures, a.last⟩, { a with raised := false }) else none

end Alarm
end PeerHealth.Scheduler
