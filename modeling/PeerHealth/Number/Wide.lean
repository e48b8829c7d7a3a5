import PeerHealth.Number.Floating

/-! Positive binary numbers with 64 significant bits, wide enough to multiply by powers of ten
before the result is rounded to 53 bits. -/

namespace PeerHealth.Number

/-- The number `mantissa * 2 ^ exponent`. -/
structure Wide where
  mantissa : Nat
  exponent : Int
deriving DecidableEq, Repr

namespace Wide

/-- The number of 64 bits nearest to `n * 2 ^ exponent`. -/
def rounded (n : Nat) (exponent : Int) : Wide :=
  let extra := n.log2 - 63
  ⟨roundDiv n (twoTo extra), exponent + extra⟩

def ofNat (n : Nat) : Wide := rounded n 0

/-- The number nearest to `1 / n`. -/
def ofReciprocal (n : Nat) : Wide :=
  let places := n.log2 + 64
  ⟨roundDiv (twoTo places) n, -(places : Int)⟩

def mul (x y : Wide) : Wide := rounded (x.mantissa * y.mantissa) (x.exponent + y.exponent)

/-- The factors whose product is the power `k` of ten, each of them a power that `power` gives:
hundreds of places first, then tens, then single ones. -/
def factors (power : Nat → Wide) (k : Nat) : List Wide :=
  List.replicate (k / 100) (power 100) ++ List.replicate (k % 100 / 10) (power 10) ++
    List.replicate (k % 10) (power 1)

/-- The number `n * 10 ^ exponent`, rounded after each factor. -/
def ofDecimal (n : Nat) (exponent : Int) : Wide :=
  let power (k : Nat) : Wide := if exponent < 0 then ofReciprocal (tenTo k) else ofNat (tenTo k)
  (factors power exponent.natAbs).foldl mul (ofNat n)

def toRatio (x : Wide) : Nat × Nat :=
  if x.exponent < 0 then (x.mantissa, twoTo (-x.exponent).toNat)
  else (x.mantissa * twoTo x.exponent.toNat, 1)

/-- The number rounded to 53 bits, with a sign; infinite past the greatest of those. -/
def toFloating (negative : Bool) (x : Wide) : Floating :=
  let (num, den) := x.toRatio
  if Binary64.greatest.toRatio.1 * den < num then .infinite negative
  else .ofRatio negative num den

end Wide
end PeerHealth.Number
