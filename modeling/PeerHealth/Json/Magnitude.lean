import PeerHealth.Number.Reading

/-! Numbers of JSON that no floating-point number is great enough for. Of the digits only as many
count as fit 64 bits; the number is their value, rounded, times the power of ten, rounded too. -/

namespace PeerHealth.Json

open Number (Binary64 addDigit limit64 nearestDecimal spanDigits value)

/-- The number that the digits after the digits of `n` make with them, as far as they fit 64 bits,
and how many digits are left over. -/
def fitDigits (n : Nat) : List Char → Nat × Nat
  | [] => (n, 0)
  | c :: cs => if addDigit n c < limit64 then fitDigits (addDigit n c) cs else (n, cs.length + 1)

/-- The power of ten at the end of a number. -/
def powerOf : List Char → Int
  | 'e' :: '-' :: ds | 'E' :: '-' :: ds => -(value ds : Int)
  | 'e' :: '+' :: ds | 'E' :: '+' :: ds => value ds
  | 'e' :: ds | 'E' :: ds => value ds
  | _ => 0

/-- The digits of a number that count, and the power of ten that they are multiplied with. -/
def decimalOf (cs : List Char) : Nat × Int :=
  let (units, rest) := spanDigits (cs.dropWhile (· = '-'))
  let (places, rest) := match rest with
    | '.' :: more => spanDigits more
    | _ => ([], rest)
  let (n, left) := fitDigits 0 units
  let (n, dropped) := fitDigits n places
  (n, powerOf rest + left - (places.length - dropped : Nat))

/-- The powers of ten up to the greatest that a floating-point number is great enough for. -/
def greatestPower : Int := 308

/-- No floating-point number is great enough for a number. -/
def tooGreat (bytes : List UInt8) : Bool :=
  let (n, power) := decimalOf (bytes.map fun b => Char.ofNat b.toNat)
  if n = 0 ∨ power < 0 then false
  else if greatestPower < power then true
  else
    let factor := (nearestDecimal 1 power).getD .zero
    ((Binary64.ofNat n).mul? factor).isNone

end PeerHealth.Json
