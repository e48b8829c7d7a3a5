import PeerHealth.Number.Binary64
import PeerHealth.Registry.Kinds

/-! Uptime: how many checks there were and how many of them succeeded, for each network and
protocol of a host, with the totals above them. -/

namespace PeerHealth

/-- Numbers of checks. -/
structure Counts where
  successes : Nat
  total : Nat
deriving DecidableEq, Repr, Inhabited

namespace Counts

def zero : Counts := ⟨0, 0⟩

/-- Numbers of checks are kept in 64 bits. -/
def limit : Nat := Number.limit64

def Fits (c : Counts) : Prop := c.successes < limit ∧ c.total < limit

instance (c : Counts) : Decidable c.Fits := by unfold Fits; infer_instance

protected def add (c d : Counts) : Counts := ⟨c.successes + d.successes, c.total + d.total⟩

/-- The sum, if it is below the limit. -/
def add? (c d : Counts) : Option Counts := if (c.add d).Fits then some (c.add d) else none

/-- The part of the checks that succeeded, in hundredths of the whole; zero if there were none. The
quotient and the product are each rounded. -/
def percent (c : Counts) : Number.Binary64 :=
  if c.total = 0 then .zero
  else ((Number.Binary64.ofNat c.successes).div (.ofNat c.total)).mul (.ofNat 100)

end Counts

/-- The counts of a network, by protocol, and their sum. -/
structure NetworkUptime where
  total : Counts := .zero
  http : Counts := .zero
  tcp : Counts := .zero
  udp : Counts := .zero
  icmp : Counts := .zero
deriving DecidableEq, Repr, Inhabited

namespace NetworkUptime

def of (u : NetworkUptime) : Protocol → Counts
  | .http => u.http
  | .tcp => u.tcp
  | .udp => u.udp
  | .icmp => u.icmp

def set (u : NetworkUptime) (p : Protocol) (c : Counts) : NetworkUptime :=
  match p with
  | .http => { u with http := c }
  | .tcp => { u with tcp := c }
  | .udp => { u with udp := c }
  | .icmp => { u with icmp := c }

/-- Counts `c` more checks by `p`; `none` if a sum passes the limit. -/
def add? (u : NetworkUptime) (p : Protocol) (c : Counts) : Option NetworkUptime := do
  let slot ← (u.of p).add? c
  let total ← u.total.add? c
  some { u.set p slot with total }

end NetworkUptime

/-- The counts of one network and protocol. -/
structure Leaf where
  network : Network
  protocol : Protocol
  counts : Counts
deriving DecidableEq, Repr

/-- The counts of a host, and their sum. -/
structure Uptime where
  host : Int
  total : Counts := .zero
  internal : NetworkUptime := {}
  external : NetworkUptime := {}
deriving DecidableEq, Repr, Inhabited

namespace Uptime

def of (u : Uptime) : Network → NetworkUptime
  | .internal => u.internal
  | .external => u.external

def set (u : Uptime) (n : Network) (v : NetworkUptime) : Uptime :=
  match n with
  | .internal => { u with internal := v }
  | .external => { u with external := v }

def add? (u : Uptime) (leaf : Leaf) : Option Uptime := do
  let network ← (u.of leaf.network).add? leaf.protocol leaf.counts
  let total ← u.total.add? leaf.counts
  some { u.set leaf.network network with total }

/-- The counts of a host summed from its leaves, of which several may have the same network and
protocol; `none` if a sum passes the limit. -/
def ofLeaves? (host : Int) (leaves : List Leaf) : Option Uptime :=
  leaves.foldlM (fun u leaf => u.add? leaf) { host }

end Uptime
end PeerHealth
