import PeerHealth.Number.Decimal
import PeerHealth.Text.Blank
import PeerHealth.Time.Instant

/-! Times as they are stored: date, space, time of day, and nine decimal places. Reading is more
lenient than writing, so that a stored text may also come from elsewhere, RFC 3339 included. -/

namespace PeerHealth.Time

open Number (digits padded value isDigit spanDigits)

/-- A year: four digits from 0 to 9999, otherwise a sign and at least four digits. -/
def yearText (year : Int) : List Char :=
  if 0 ≤ year ∧ year ≤ 9999 then padded 4 year.toNat
  else (if year < 0 then '-' else '+') :: padded 4 year.natAbs

def dateText (d : Date) : List Char :=
  yearText d.year ++ '-' :: padded 2 d.month ++ '-' :: padded 2 d.day

/-- A time of day as hour, minute and second with colons between them. -/
def clockText (t : Instant) : List Char :=
  padded 2 t.hour ++ ':' :: padded 2 t.minute ++ ':' :: padded 2 t.second

def storedText (t : Instant) : String :=
  String.ofList (dateText t.date ++ ' ' :: clockText t ++ '.' :: padded 9 t.subsecond)

/-- A reader: what it read at the front of a text, and what follows. -/
abbrev Reader (α : Type) := List Char → Option (α × List Char)

def blanks (cs : List Char) : List Char := cs.dropWhile Text.isBlankChar

def literal (c : Char) : List Char → Option (List Char)
  | d :: cs => if d = c then some cs else none
  | [] => none

/-- At least `least` and at most `most` digits. -/
def digitsWithin (least most : Nat) : Reader Nat := fun cs =>
  let ds := (cs.take most).takeWhile isDigit
  if ds.length < least then none else some (value ds, cs.drop ds.length)

/-- A number of one or two digits, after any white space. -/
def shortNumber : Reader Nat := fun cs => digitsWithin 1 2 (blanks cs)

/-- All the digits at the front, at least one. -/
def allDigits : Reader Nat := fun cs =>
  let (ds, rest) := spanDigits cs
  if ds.isEmpty then none else some (value ds, rest)

/-- A year, after any white space: up to four digits, or a sign and any number of them. -/
def year : Reader Int := fun cs =>
  match blanks cs with
  | '-' :: rest => (allDigits rest).map fun (n, rest) => (-(n : Int), rest)
  | '+' :: rest => (allDigits rest).map fun (n, rest) => ((n : Int), rest)
  | rest => (digitsWithin 1 4 rest).map fun (n, rest) => ((n : Int), rest)

/-- A fraction of a second in nanoseconds: a point and digits, of which nine count. A text without
a point has no fraction. -/
def fraction : Reader Nat := fun cs =>
  match cs with
  | '.' :: rest =>
    let (ds, rest) := spanDigits rest
    if ds.isEmpty then none
    else
      let kept := ds.take 9
      some (value kept * Number.tenTo (9 - kept.length), rest)
  | _ => some (0, cs)

/-- The stored form: the numbers may have fewer digits and white space in front of them, any white
space or none stands between date and time, and the fraction may be missing. -/
def parseStored? (cs : List Char) : Option Instant := do
  let (year, cs) ← year cs
  let cs ← literal '-' cs
  let (month, cs) ← shortNumber cs
  let cs ← literal '-' cs
  let (day, cs) ← shortNumber cs
  let (hour, cs) ← shortNumber (blanks cs)
  let cs ← literal ':' cs
  let (minute, cs) ← shortNumber cs
  let cs ← literal ':' cs
  let (second, cs) ← shortNumber cs
  let (nanos, cs) ← fraction cs
  if cs.isEmpty then Instant.ofClock? ⟨year, month, day⟩ hour minute second nanos 0 else none

/-- The distance from universal time, in seconds: `Z`, or a sign, hours and minutes with a colon,
less than a day. -/
def zone : Reader Int := fun cs =>
  let distance (negative : Bool) (cs : List Char) : Option (Int × List Char) := do
    let (hours, cs) ← digitsWithin 2 2 cs
    let cs ← literal ':' cs
    let (minutes, cs) ← digitsWithin 2 2 cs
    if 60 ≤ minutes ∨ 24 ≤ hours then none
    else
      let seconds : Int := hours * 3600 + minutes * 60
      some (if negative then -seconds else seconds, cs)
  match cs with
  | 'Z' :: rest | 'z' :: rest => some (0, rest)
  | '+' :: rest => distance false rest
  | '-' :: rest | '\u2212' :: rest => distance true rest
  | _ => none

/-- RFC 3339: every number with all its digits, `T` or a space before the time, and the distance
from universal time at the end. -/
def parseRfc3339? (cs : List Char) : Option Instant := do
  let (year, cs) ← digitsWithin 4 4 cs
  let cs ← literal '-' cs
  let (month, cs) ← digitsWithin 2 2 cs
  let cs ← literal '-' cs
  let (day, cs) ← digitsWithin 2 2 cs
  let cs ← match cs with
    | 'T' :: rest | 't' :: rest | ' ' :: rest => some rest
    | _ => none
  let (hour, cs) ← digitsWithin 2 2 cs
  let cs ← literal ':' cs
  let (minute, cs) ← digitsWithin 2 2 cs
  let cs ← literal ':' cs
  let (second, cs) ← digitsWithin 2 2 cs
  let (nanos, cs) ← fraction cs
  let (offset, cs) ← zone cs
  if cs.isEmpty then Instant.ofClock? ⟨year, month, day⟩ hour minute second nanos offset else none

def parseTime? (s : String) : Option Instant :=
  (parseStored? s.toList).orElse fun _ => parseRfc3339? s.toList

/-- An instant in RFC 3339 at universal time, with no decimal places or three, six or nine of them,
whichever shows it exactly. -/
def rfc3339Text (t : Instant) : String :=
  let places :=
    if t.subsecond = 0 then []
    else if t.subsecond % 1000000 = 0 then '.' :: padded 3 (t.subsecond / 1000000)
    else if t.subsecond % 1000 = 0 then '.' :: padded 6 (t.subsecond / 1000)
    else '.' :: padded 9 t.subsecond
  String.ofList (dateText t.date ++ 'T' :: clockText t ++ places ++ ['Z'])

end PeerHealth.Time
