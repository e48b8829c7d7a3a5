import PeerHealth.Number.Power

/-! Non-negative binary floating-point numbers with 53 significant bits, in exact arithmetic:
rounding a quotient to the nearest of them, and their 64-bit pattern. -/

namespace PeerHealth.Number

/-- The whole number nearest to `num / den`; a half goes to the even neighbour. -/
def roundDiv (num den : Nat) : Nat :=
  let q := num / den
  let r := num % den
  if 2 * r < den then q
  else if den < 2 * r then q + 1
  else if q % 2 = 0 then q else q + 1

/-- The number `mantissa * 2 ^ exponent`. -/
structure Binary64 where
  mantissa : Nat
  exponent : Int
deriving DecidableEq, Repr

namespace Binary64

/-- The least mantissa of 53 bits. -/
def least : Nat := 4503599627370496

def zero : Binary64 := ⟨0, -1074⟩

def greatest : Binary64 := ⟨2 * least - 1, 971⟩

/-- `num / den` counted in units of `2 ^ exponent`, as a fraction. -/
def inUnits (num den : Nat) (exponent : Int) : Nat × Nat :=
  if exponent < 0 then (num * twoTo (-exponent).toNat, den) else (num, den * twoTo exponent.toNat)

/-- The exponent of the unit in the last place of the number nearest to `num / den`. -/
def unitExponent (num den : Nat) : Int :=
  let guess := max ((num.log2 : Int) - (den.log2 : Int) - 52) (-1074)
  let (n, d) := inUnits num den guess
  if n / d < least ∧ -1074 < guess then guess - 1 else guess

/-- The number nearest to `num / den`, or `none` if it is past the greatest. -/
def ofRatio (num den : Nat) : Option Binary64 :=
  if num = 0 then some zero
  else
    let exponent := unitExponent num den
    let (n, d) := inUnits num den exponent
    let m := roundDiv n d
    let rounded : Binary64 := if m = 2 * least then ⟨least, exponent + 1⟩ else ⟨m, exponent⟩
    if 971 < rounded.exponent then none else some rounded

def toRatio (x : Binary64) : Nat × Nat :=
  if x.exponent < 0 then (x.mantissa, twoTo (-x.exponent).toNat)
  else (x.mantissa * twoTo x.exponent.toNat, 1)

/-- The number nearest to a natural number below `2 ^ 1023`. -/
def ofNat (n : Nat) : Binary64 := (ofRatio n 1).getD zero

/-- The quotient, rounded; zero for a divisor of zero. -/
def div (x y : Binary64) : Binary64 :=
  let (a, b) := x.toRatio
  let (c, d) := y.toRatio
  (ofRatio (a * d) (b * c)).getD zero

/-- The product, rounded, or `none` if it is past the greatest. -/
def mul? (x y : Binary64) : Option Binary64 :=
  let (a, b) := x.toRatio
  let (c, d) := y.toRatio
  ofRatio (a * c) (b * d)

/-- The product, rounded; zero past the greatest. -/
def mul (x y : Binary64) : Binary64 := (x.mul? y).getD zero

/-- The 64-bit pattern: the exponent above the 52 low bits of the mantissa. -/
def toBits (x : Binary64) : Nat :=
  if x.mantissa < least then x.mantissa
  else (x.exponent + 1075).toNat * least + (x.mantissa - least)

end Binary64
end PeerHealth.Number
