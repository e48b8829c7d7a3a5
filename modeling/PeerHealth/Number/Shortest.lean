import PeerHealth.Number.Binary64
import PeerHealth.Number.Decimal

/-! The shortest decimal that reads back to a binary number, and the layout in which percentages
are written. -/

namespace PeerHealth.Number

/-- The number `significand * 10 ^ exponent`. -/
structure Decimal where
  significand : Nat
  exponent : Int
deriving DecidableEq, Repr

namespace Binary64

/-- The exponent of the leading decimal digit of the positive number `num / den`. -/
def leadingExponent (num den : Nat) : Int :=
  if den ≤ num then (digits (num / den)).length - 1
  else
    let least := (den + num - 1) / num
    Int.negOfNat (digits (least - 1)).length

/-- `num / den` counted in units of `10 ^ exponent`, as a fraction. -/
def inDecimalUnits (num den : Nat) (exponent : Int) : Nat × Nat :=
  if exponent < 0 then (num * tenTo (-exponent).toNat, den) else (num, den * tenTo exponent.toNat)

/-- Whether `d` units of `10 ^ exponent` read back to `x`: they lie no farther from `x` than half
the way to its neighbours, and on that border only if the mantissa is even. -/
def readsBack (x : Binary64) (d : Nat) (exponent : Int) : Bool :=
  let below :=
    if x.mantissa = least ∧ -1074 < x.exponent then 4 * x.mantissa - 1 else 4 * x.mantissa - 2
  let above := 4 * x.mantissa + 2
  let (lowNum, lowDen) := Binary64.toRatio ⟨below, x.exponent - 2⟩
  let (highNum, highDen) := Binary64.toRatio ⟨above, x.exponent - 2⟩
  let (num, den) :=
    if exponent < 0 then (d, tenTo (-exponent).toNat) else (d * tenTo exponent.toNat, 1)
  if x.mantissa % 2 = 0 then lowNum * den ≤ num * lowDen && num * highDen ≤ highNum * den
  else lowNum * den < num * lowDen && num * highDen < highNum * den

/-- The nearer of the neighbours of `x` on the grid of `10 ^ exponent` that reads back to `x`. -/
def onGrid? (x : Binary64) (exponent : Int) : Option Nat :=
  let (a, b) := x.toRatio
  let (num, den) := inDecimalUnits a b exponent
  let d := num / den
  match readsBack x d exponent, readsBack x (d + 1) exponent with
  | true, true => some (roundDiv num den)
  | true, false => some d
  | false, true => some (d + 1)
  | false, false => none

/-- The decimal with the fewest digits that reads back to `x`, no more than seventeen. -/
def shortest (x : Binary64) : Decimal :=
  if x.mantissa = 0 then ⟨0, 0⟩
  else
    let (a, b) := x.toRatio
    let lead := leadingExponent a b
    let found := (List.range 17).findSome? fun (n : Nat) =>
      (onGrid? x (lead - n)).map fun d => Decimal.mk d (lead - n)
    found.getD ⟨0, 0⟩

end Binary64

namespace Decimal

/-- The digits of the significand without the zeros it ends in, and the place of the point counted
from the first of them. -/
def pointed (x : Decimal) : List Char × Int :=
  let ds := digits x.significand
  ((ds.reverse.dropWhile (· = '0')).reverse, x.exponent + ds.length)

/-- The written form: positional from `0.00001` to below ten to the sixteenth, always with a
fraction, and otherwise with a signed exponent. -/
def render (x : Decimal) : String :=
  if x.significand = 0 then "0.0"
  else
    let (ds, point) := x.pointed
    let count : Int := ds.length
    String.ofList <|
      if count ≤ point ∧ point ≤ 16 then
        ds ++ List.replicate (point - count).toNat '0' ++ ['.', '0']
      else if 0 < point ∧ point ≤ 16 then ds.take point.toNat ++ '.' :: ds.drop point.toNat
      else if -5 < point ∧ point ≤ 0 then '0' :: '.' :: (List.replicate (-point).toNat '0' ++ ds)
      else
        let lead := point - 1
        let fraction := if ds.length = 1 then [] else '.' :: ds.drop 1
        ds.take 1 ++ fraction ++ 'e' :: (if lead < 0 then '-' else '+') :: digits lead.natAbs

end Decimal
end PeerHealth.Number
