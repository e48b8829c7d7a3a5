import PeerHealth.Number.Decimal

/-! Lengths of time, to the nanosecond. -/

namespace PeerHealth

/-- A length of time that is not negative. -/
structure Duration where
  nanoseconds : Nat
deriving DecidableEq, Repr

namespace Duration

def second : Nat := 1000000000

def ofSeconds (n : Nat) : Duration := ⟨n * second⟩

/-- A number of seconds and of nanoseconds; `none` if the whole seconds do not fit 64 bits. -/
def ofParts? (seconds nanoseconds : Nat) : Option Duration :=
  if seconds + nanoseconds / second < Number.limit64 then some ⟨seconds * second + nanoseconds⟩
  else none

/-- What is left of a length after another one; nothing if that one is longer. -/
def minus (d e : Duration) : Duration := ⟨d.nanoseconds - e.nanoseconds⟩

def seconds (d : Duration) : Nat := d.nanoseconds / second

def subsecond (d : Duration) : Nat := d.nanoseconds % second

/-- A whole number of units and `places` decimal places of a unit, without the zeros at the end. -/
def renderUnits (whole fraction places : Nat) (unit : String) : String :=
  let shown := ((Number.padded places fraction).reverse.dropWhile (· = '0')).reverse
  String.ofList (Number.digits whole ++ (if shown.isEmpty then [] else '.' :: shown)) ++ unit

/-- The length in the largest of seconds, milliseconds, microseconds and nanoseconds that it
reaches, with as many decimal places as it needs. -/
def render (d : Duration) : String :=
  if second ≤ d.nanoseconds then renderUnits d.seconds d.subsecond 9 "s"
  else if 1000000 ≤ d.nanoseconds then
    renderUnits (d.nanoseconds / 1000000) (d.nanoseconds % 1000000) 6 "ms"
  else if 1000 ≤ d.nanoseconds then
    renderUnits (d.nanoseconds / 1000) (d.nanoseconds % 1000) 3 "µs"
  else renderUnits d.nanoseconds 0 0 "ns"

end Duration
end PeerHealth
