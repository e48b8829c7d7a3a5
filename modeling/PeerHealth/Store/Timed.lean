import PeerHealth.Store.Checks
import PeerHealth.Store.SelfRecord

/-! A store with a clock from which each write takes its time. -/

namespace PeerHealth

/-- A store, the time of each write to come, and how many there have been. -/
structure TimedStore where
  store : Store
  clock : Nat → Time.Instant
  writes : Nat := 0

namespace TimedStore

def now (t : TimedStore) : Time.Instant := t.clock t.writes

def write {α : Type} (t : TimedStore) (op : Store → Time.Instant → Except Store.Fault α × Store) :
    Except Store.Fault α × TimedStore :=
  let (answer, store) := op t.store t.now
  (answer, { t with store, writes := t.writes + 1 })

end TimedStore
end PeerHealth
