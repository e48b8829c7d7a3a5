import PeerHealth.Number.Decimal
import PeerHealth.Registry.Kinds

/-! IPv4 addresses: dotted decimal, and which network an address is of. -/

namespace PeerHealth.Address

open Number (digits isDigit value)

/-- An IPv4 address by its four octets. -/
structure IPv4 where
  a : UInt8
  b : UInt8
  c : UInt8
  d : UInt8
deriving DecidableEq, Repr, Inhabited

def skip? (c : Char) : List Char → Option (List Char)
  | d :: cs => if d = c then some cs else none
  | [] => none

namespace IPv4

/-- An octet at the front: at most three digits, up to 255, and no zero in front of others. -/
def octet? (cs : List Char) : Option (UInt8 × List Char) :=
  let ds := cs.takeWhile isDigit
  if ds = [] ∨ 3 < ds.length ∨ (ds.head? = some '0' ∧ 1 < ds.length) ∨ 255 < value ds then none
  else some (UInt8.ofNat (value ds), cs.drop ds.length)

/-- An octet after a point. -/
def nextOctet? (cs : List Char) : Option (UInt8 × List Char) := (skip? '.' cs).bind octet?

/-- An address at the front of a text. -/
def read? (cs : List Char) : Option (IPv4 × List Char) := do
  let (a, cs) ← octet? cs
  let (b, cs) ← nextOctet? cs
  let (c, cs) ← nextOctet? cs
  let (d, cs) ← nextOctet? cs
  some (⟨a, b, c, d⟩, cs)

def render (ip : IPv4) : List Char :=
  digits ip.a.toNat ++ '.' :: digits ip.b.toNat ++ '.' :: digits ip.c.toNat ++
    '.' :: digits ip.d.toNat

/-- Within 10/8, 172.16/12 or 192.168/16. -/
def isPrivate (ip : IPv4) : Bool :=
  ip.a == 10 || (ip.a == 172 && 16 ≤ ip.b && ip.b ≤ 31) || (ip.a == 192 && ip.b == 168)

def isLoopback (ip : IPv4) : Bool := ip.a == 127

/-- Within 169.254/16. -/
def isLinkLocal (ip : IPv4) : Bool := ip.a == 169 && ip.b == 254

/-- The address 0.0.0.0. -/
def isUnspecified (ip : IPv4) : Bool := ip == ⟨0, 0, 0, 0⟩

/-- The network of an address: private ones are internal. -/
def network (ip : IPv4) : Network := if ip.isPrivate then .internal else .external

end IPv4
end PeerHealth.Address
