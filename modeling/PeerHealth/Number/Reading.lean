import PeerHealth.Number.Binary64
import PeerHealth.Number.Decimal

/-! Decimal fractions read from text. -/

namespace PeerHealth.Number

/-- A number read from text, before it is asked whether it suits: the nearest binary number, or
one of the words and values that no finite number stands for. -/
inductive Reading where
  | finite (negative : Bool) (magnitude : Binary64)
  | infinite (negative : Bool)
  | notANumber
deriving DecidableEq, Repr

/-- The ASCII lower case of a letter; other characters stay. -/
def lowerAscii (c : Char) : Char :=
  if 65 ≤ c.toNat ∧ c.toNat ≤ 90 then Char.ofNat (c.toNat + 32) else c

/-- The binary number nearest to `significand * 10 ^ exponent`, or `none` past the greatest. -/
def nearestDecimal (significand : Nat) (exponent : Int) : Option Binary64 :=
  if significand = 0 then some .zero
  else
    let size := ((digits significand).length : Int) + exponent
    if 310 < size then none
    else if size < -330 then some .zero
    else if exponent < 0 then Binary64.ofRatio significand (tenTo (-exponent).toNat)
    else Binary64.ofRatio (significand * tenTo exponent.toNat) 1

/-- The number that the digits of an exponent stand for; from 65536 on no more digits are taken. -/
def exponentOf (ds : List Char) : Nat :=
  ds.foldl (fun e c => if e < 65536 then addDigit e c else e) 0

/-- The exponent part at the end of a number: nothing, or `e`, a sign and digits. -/
def exponentPart? : List Char → Option Int
  | [] => some 0
  | c :: rest =>
    if lowerAscii c = 'e' then
      let (negative, ds) := match rest with
        | '+' :: ds => (false, ds)
        | '-' :: ds => (true, ds)
        | ds => (false, ds)
      if ds.isEmpty || !ds.all isDigit then none
      else some (if negative then -(exponentOf ds : Int) else (exponentOf ds : Int))
    else none

/-- A number without its sign: digits with at most one point among or around them, at least one
digit, and an optional exponent; or one of the words for infinity and for no number. -/
def unsigned? (negative : Bool) (cs : List Char) : Option Reading :=
  let word := cs.map lowerAscii
  if word = "inf".toList ∨ word = "infinity".toList then some (.infinite negative)
  else if word = "nan".toList then some .notANumber
  else
    let (whole, rest) := spanDigits cs
    let (fraction, rest) := match rest with
      | '.' :: more => spanDigits more
      | _ => ([], rest)
    if whole.isEmpty && fraction.isEmpty then none
    else (exponentPart? rest).map fun e =>
      match nearestDecimal (value (whole ++ fraction)) (e - fraction.length) with
      | some x => .finite negative x
      | none => .infinite negative

/-- A whole text read as a number. -/
def reading? : List Char → Option Reading
  | '+' :: cs => unsigned? false cs
  | '-' :: cs => unsigned? true cs
  | cs => unsigned? false cs

end PeerHealth.Number
