import PeerHealth.Probe.Run
import PeerHealth.Store.Timed

/-! Finding peers: each address at which one may be is asked who it is, and only what answers is
recorded. Several addresses may be tried at once, so the order in which they finish is a
parameter. -/

namespace PeerHealth.Scheduler

open Probe (Prober)

/-- The record of all hosts, the local one included. -/
def knownHosts (store : Store) : Except Store.Fault (List Host) :=
  store.hosts { includeLocal := true }

/-- Whether one of the hosts has the document's name or one of its addresses. -/
def isKnown (known : List Host) (d : Wire.Document) : Bool :=
  known.any fun h =>
    h.hostname = d.hostname || h.hasAddress d.addresses.internal ||
      h.hasAddress d.addresses.external

/-- A node that looks for peers. -/
structure Seeker where
  prober : Prober
  /-- The port that peers found serve on. -/
  servicePort : UInt16

/-- Asks an address who it is and records what it answers. The answer tells whether there is a
record of it now. -/
def Seeker.admit (s : Seeker) (address : String) (t : TimedStore) : Bool × TimedStore :=
  match s.prober.identity address with
  | .error _ => (false, t)
  | .ok d =>
    match t.write fun store now => store.upsertHost now (d.toIdentity address s.servicePort) with
    | (.ok _, t) => (true, t)
    | (.error _, t) => (false, t)

/-- An attempt to find one peer: the addresses that have not been tried yet, and whether one of
those tried has led to it. -/
structure Attempt where
  untried : List String
  admitted : Bool := false
deriving DecidableEq, Repr

/-- Attempts under way, and the store they write to. -/
structure Search where
  attempts : List Attempt
  timed : TimedStore

namespace Search

/-- Attempt `i` tries its next address, and no more once one has led to the peer. -/
def advance (s : Seeker) (search : Search) (i : Nat) : Search :=
  match search.attempts[i]? with
  | none => search
  | some attempt =>
    match attempt.untried with
    | [] => search
    | address :: rest =>
      let (admitted, timed) := s.admit address search.timed
      let next : Attempt := if admitted then ⟨[], true⟩ else ⟨rest, false⟩
      { attempts := search.attempts.set i next, timed }

def run (s : Seeker) (search : Search) (order : List Nat) : Search := order.foldl (advance s) search

def Finished (search : Search) : Prop := ∀ a ∈ search.attempts, a.untried = []

def count (search : Search) : Nat := (search.attempts.filter (·.admitted)).length

end Search

/-- An order in which attempts advance, given what they are to try. -/
abbrev Schedule := List Attempt → List Nat

/-- One attempt after the other, each to its end. -/
def inTurn : Schedule := fun attempts =>
  attempts.zipIdx.flatMap fun (attempt, i) => List.replicate attempt.untried.length i

inductive DiscoveryFault where
  /-- The candidates are not known. -/
  | unresolved (reason : String)
  | store (fault : Store.Fault)
deriving DecidableEq, Repr

/-- The candidates that are not an address of a known host. -/
def unknownCandidates (known : List Host) (candidates : List String) : List String :=
  candidates.filter fun a => a ≠ "" && !known.any (·.hasAddress a)

/-- Tries each candidate that is not an address of a known host. The answer is how many led to a
peer. -/
def Seeker.discover (s : Seeker) (schedule : Schedule) (candidates : Except String (List String))
    (t : TimedStore) : Except DiscoveryFault Nat × TimedStore :=
  match candidates with
  | .error reason => (.error (.unresolved reason), t)
  | .ok candidates =>
    match knownHosts t.store with
    | .error fault => (.error (.store fault), t)
    | .ok known =>
      let attempts := (unknownCandidates known candidates).map fun a => (⟨[a], false⟩ : Attempt)
      let search := Search.run s ⟨attempts, t⟩ (schedule attempts)
      (.ok search.count, search.timed)

/-- The documents of hosts that are not known and have a name. -/
def freshDocuments (known : List Host) (ds : List Wire.Document) : List Wire.Document :=
  ds.filter fun d => !Text.isBlank d.hostname && !isKnown known d

/-- The addresses of a document, the public one first. -/
def documentAddresses (d : Wire.Document) : List String :=
  [d.addresses.external, d.addresses.internal].filter (· ≠ "")

/-- Asks a peer with a public address whom it knows, and tries those that are not known here. The
answer is how many of them led to a peer. -/
def Seeker.expand (s : Seeker) (schedule : Schedule) (peer : Host) (t : TimedStore) :
    Nat × TimedStore :=
  match peer.address? .external with
  | none => (0, t)
  | some address =>
    match s.prober.knownHosts address with
    | .error _ => (0, t)
    | .ok ds =>
      match knownHosts t.store with
      | .error _ => (0, t)
      | .ok known =>
        let attempts := (freshDocuments known ds).map fun d =>
          (⟨documentAddresses d, false⟩ : Attempt)
        let search := Search.run s ⟨attempts, t⟩ (schedule attempts)
        (search.count, search.timed)

end PeerHealth.Scheduler
