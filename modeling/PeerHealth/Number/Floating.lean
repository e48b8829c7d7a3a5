import PeerHealth.Number.Binary64

/-! Binary floating-point numbers with a sign, and the infinities on either side of them. -/

namespace PeerHealth.Number

/-- A number with a sign, or an infinity. -/
inductive Floating where
  | finite (negative : Bool) (magnitude : Binary64)
  | infinite (negative : Bool)
deriving DecidableEq, Repr

def signed (negative : Bool) (n : Nat) : Int := if negative then -(n : Int) else n

namespace Floating

/-- The number nearest to `num / den` with a sign; infinite past the greatest. -/
def ofRatio (negative : Bool) (num den : Nat) : Floating :=
  match Binary64.ofRatio num den with
  | some x => .finite negative x
  | none => .infinite negative

def ofInt (n : Int) : Floating := ofRatio (n < 0) n.natAbs 1

def whole? : Floating → Option Int
  | .finite negative x =>
    let (num, den) := x.toRatio
    if num % den = 0 then some (signed negative (num / den)) else none
  | .infinite _ => none

/-- The sum with a whole number. The whole number is rounded before the sum is. -/
def plus (x : Floating) (n : Int) : Floating :=
  match x, ofInt n with
  | .finite s a, .finite t b =>
    let (num, den) := a.toRatio
    let (num', den') := b.toRatio
    let sum := signed s (num * den') + signed t (num' * den)
    ofRatio (sum < 0) sum.natAbs (den * den')
  | .infinite s, _ => .infinite s
  | _, .infinite t => .infinite t

end Floating
end PeerHealth.Number
