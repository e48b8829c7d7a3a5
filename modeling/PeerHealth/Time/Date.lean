/-! Dates of the Gregorian calendar, extended to all years, and the number of days since the first
of January 1970. Years are counted from March, so that a leap day ends its year. -/

namespace PeerHealth.Time

/-- A date; the year before 1 is 0. -/
structure Date where
  year : Int
  month : Nat
  day : Nat
deriving DecidableEq, Repr

def isLeapYear (year : Int) : Bool := year % 4 = 0 && (year % 100 ≠ 0 || year % 400 = 0)

def daysInMonth (year : Int) (month : Nat) : Nat :=
  if month = 2 then (if isLeapYear year then 29 else 28)
  else if month = 4 ∨ month = 6 ∨ month = 9 ∨ month = 11 then 30
  else 31

/-- The years that dates may have. -/
def firstYear : Int := -262143

def lastYear : Int := 262142

namespace Date

/-- A date that exists, within the years allowed. -/
def Valid (d : Date) : Prop :=
  firstYear ≤ d.year ∧ d.year ≤ lastYear ∧ 1 ≤ d.month ∧ d.month ≤ 12 ∧ 1 ≤ d.day ∧
    d.day ≤ daysInMonth d.year d.month

instance (d : Date) : Decidable d.Valid := by unfold Valid; infer_instance

/-- The days from the start of a March-based year to the start of its month `m`, March being 0. -/
def daysBefore (m : Nat) : Nat := (153 * m + 2) / 5

/-- The days of a 400-year cycle before its year `y`, counted from March. -/
def cycleDays (y : Nat) : Nat := 365 * y + y / 4 - y / 100

/-- The number of days from the first of January 1970. -/
def dayNumber (d : Date) : Int :=
  let year := if d.month ≤ 2 then d.year - 1 else d.year
  let month := if d.month ≤ 2 then d.month + 9 else d.month - 3
  let inCycle := cycleDays (year % 400).toNat + daysBefore month + d.day - 1
  year / 400 * 146097 + inCycle - 719468

/-- The century of a 400-year cycle that its day `c` is in; the last one has a day more. -/
def centuryOf (c : Nat) : Nat := min (c / 36524) 3

/-- The year of a 400-year cycle that its day `c` is in. -/
def yearOfCycle (c : Nat) : Nat :=
  let inCentury := c - 36524 * centuryOf c
  let inQuad := inCentury % 1461
  100 * centuryOf c + 4 * (inCentury / 1461) + min (inQuad / 365) 3

/-- The day of its year that day `c` of a 400-year cycle is, counted from March. -/
def dayOfYear (c : Nat) : Nat := c - cycleDays (yearOfCycle c)

/-- The March-based month that day `d` of a year is in. -/
def monthOf (d : Nat) : Nat := (5 * d + 2) / 153

/-- The date `n` days after the first of January 1970. -/
def ofDayNumber (n : Int) : Date :=
  let shifted := n + 719468
  let inCycle := (shifted % 146097).toNat
  let inYear := dayOfYear inCycle
  let month := monthOf inYear
  let year := shifted / 146097 * 400 + (yearOfCycle inCycle : Int)
  { year := if month < 10 then year else year + 1
    month := if month < 10 then month + 3 else month - 9
    day := inYear - daysBefore month + 1 }

end Date
end PeerHealth.Time
