import PeerHealth.Number.Decimal
import PeerHealth.Number.Wide

/-! Numerals at the front of a text, as columns of numbers read them. Of the digits only as many
count as 64 bits have room for, and the rest only by how many they are. -/

namespace PeerHealth.Store

open Number (addDigit spanDigits signed value)

def isNumeralSpace (c : Char) : Bool := c = ' ' || (9 ≤ c.toNat && c.toNat ≤ 13)

/-- What stands at the front of a text where a number is looked for. -/
structure Numeral where
  negative : Bool
  /-- The digits before any point. -/
  units : List Char
  /-- The digits after the point, if there is one. -/
  places : Option (List Char)
  /-- The sign and the digits of the power of ten, if one is announced. -/
  power : Option (Bool × List Char)
  rest : List Char
deriving DecidableEq, Repr

namespace Numeral

/-- The power of ten announced at the front, and what follows it. -/
def readPower : List Char → Option (Bool × List Char) × List Char
  | 'e' :: cs | 'E' :: cs =>
    let (negative, cs) := match cs with
      | '-' :: cs => (true, cs)
      | '+' :: cs => (false, cs)
      | cs => (false, cs)
    let (ds, rest) := spanDigits cs
    (some (negative, ds), rest)
  | cs => (none, cs)

/-- The numeral at the front of a text, after any white space. -/
def read (s : String) : Numeral :=
  let (negative, cs) := match s.toList.dropWhile isNumeralSpace with
    | '-' :: cs => (true, cs)
    | '+' :: cs => (false, cs)
    | cs => (false, cs)
  let (units, cs) := spanDigits cs
  let (places, cs) : Option (List Char) × List Char := match cs with
    | '.' :: cs => ((spanDigits cs).1, (spanDigits cs).2)
    | cs => (none, cs)
  let (power, rest) := readPower cs
  { negative, units, places, power, rest }

/-- There is a digit in it, apart from the power of ten. -/
def hasDigits (n : Numeral) : Bool := !n.units.isEmpty || n.places.any fun ds => !ds.isEmpty

/-- No power of ten is announced without digits. -/
def powerIsRead (n : Numeral) : Bool := n.power.all fun p => !p.2.isEmpty

/-- The text is a number from end to end, but for white space. -/
def isAll (n : Numeral) : Bool := n.hasDigits && n.powerIsRead && n.rest.all isNumeralSpace

/-- Nothing tells it from a whole number. -/
def isWhole (n : Numeral) : Bool := n.places.isNone && n.power.isNone

/-- It is a number with a point or a power of ten. -/
def isDecimal (n : Numeral) : Bool :=
  n.hasDigits && (n.places.isSome || (n.power.isSome && n.powerIsRead))

/-- The whole number that the digits before any point stand for. -/
def whole (n : Numeral) : Int := signed n.negative (value n.units)

/-- A significand from here on takes no more digits. -/
def full : Nat := 1844674407370955160

/-- Takes digits before the point into a significand; also gives how many it has no room for. -/
def takeUnits (n : Nat) : List Char → Nat × Nat
  | [] => (n, 0)
  | c :: cs =>
    let n := addDigit n c
    if full ≤ n then (n, cs.length) else takeUnits n cs

/-- Takes digits after the point into a significand; also gives how many it has taken. -/
def takePlaces (n : Nat) : List Char → Nat × Nat
  | [] => (n, 0)
  | c :: cs =>
    if n < full then
      let (n, taken) := takePlaces (addDigit n c) cs
      (n, taken + 1)
    else (n, 0)

/-- The number that the digits of a power of ten stand for; 10000 if they are too many. -/
def powerOf (ds : List Char) : Nat :=
  ds.foldl (fun e c => if e < 10000 then addDigit e c else 10000) 0

/-- Moves powers of ten into a significand while there is room; gives how many are left. -/
def moveIn : Nat → Nat → Nat × Nat
  | 0, n => (n, 0)
  | k + 1, n => if n ≤ full then moveIn k (10 * n) else (n, k + 1)

/-- Takes powers of ten out of a significand while it is divisible; gives how many are left. -/
def moveOut : Nat → Nat → Nat × Nat
  | 0, n => (n, 0)
  | k + 1, n => if n % 10 = 0 then moveOut k (n / 10) else (n, k + 1)

/-- The number that a numeral stands for. -/
def toFloating (n : Numeral) : Number.Floating :=
  let (significand, left) := takeUnits 0 n.units
  let (significand, taken) := takePlaces significand (n.places.getD [])
  let power : Int := match n.power with
    | some (negative, ds) => signed negative (powerOf ds)
    | none => 0
  if significand = 0 then .finite n.negative .zero
  else
    let exponent := power + left - taken
    let scaled : Number.Wide :=
      if exponent < 0 then
        let (significand, k) := moveOut exponent.natAbs significand
        .ofDecimal significand (-(k : Int))
      else
        let (significand, k) := moveIn exponent.natAbs significand
        .ofDecimal significand k
    scaled.toFloating n.negative

end Numeral
end PeerHealth.Store
