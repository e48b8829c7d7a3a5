import PeerHealth.Time.Date

/-! Instants of universal time. -/

namespace PeerHealth.Time

def nanosPerSecond : Nat := 1000000000

/-- An instant: seconds since the start of 1970 and nanoseconds within the second. A leap second
is the second before it with nanoseconds from one second up. -/
structure Instant where
  seconds : Int
  nanos : Nat
deriving DecidableEq, Repr, Inhabited

namespace Instant

/-- The seconds of the first and of the last day that a date may have. -/
def firstSecond : Int := -8334601228800

def lastSecond : Int := 8210266876799

/-- An instant on an allowed date, with nanoseconds past a second only in the last second of a
minute. -/
def Valid (t : Instant) : Prop :=
  firstSecond ≤ t.seconds ∧ t.seconds ≤ lastSecond ∧
    (t.nanos < nanosPerSecond ∨ t.nanos < 2 * nanosPerSecond ∧ t.seconds % 60 = 59)

instance (t : Instant) : Decidable t.Valid := by unfold Valid; infer_instance

def Before (t u : Instant) : Prop :=
  t.seconds < u.seconds ∨ t.seconds = u.seconds ∧ t.nanos < u.nanos

instance (t u : Instant) : Decidable (t.Before u) := by unfold Before; infer_instance

def date (t : Instant) : Date := Date.ofDayNumber (t.seconds / 86400)

def secondOfDay (t : Instant) : Nat := (t.seconds % 86400).toNat

def hour (t : Instant) : Nat := t.secondOfDay / 3600

def minute (t : Instant) : Nat := t.secondOfDay / 60 % 60

/-- The second of the minute as a clock shows it: 60 in a leap second. -/
def second (t : Instant) : Nat := t.secondOfDay % 60 + t.nanos / nanosPerSecond

def subsecond (t : Instant) : Nat := t.nanos % nanosPerSecond

/-- The instant at which a clock set `offset` seconds ahead of universal time shows a date and a
time of day; `none` if there is no such date or time. -/
def ofClock? (date : Date) (hour minute second subsecond : Nat) (offset : Int) : Option Instant :=
  if date.Valid ∧ hour < 24 ∧ minute < 60 ∧ second ≤ 60 ∧ subsecond < nanosPerSecond then
    let inMinute := min second 59
    let inDay : Int := (hour * 3600 + minute * 60 + inMinute : Nat)
    let seconds := date.dayNumber * 86400 + inDay - offset
    some ⟨seconds, if second = 60 then nanosPerSecond + subsecond else subsecond⟩
  else none

end Instant
end PeerHealth.Time
