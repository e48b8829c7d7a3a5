import PeerHealth.Text.Quoted

/-! The two networks of a fleet, the four protocols of a check, and what a check may come to, each
with its name. -/

namespace PeerHealth

inductive Network where
  | internal
  | external
deriving DecidableEq, Repr

inductive Protocol where
  | http
  | tcp
  | udp
  | icmp
deriving DecidableEq, Repr

/-- What a check came to; it is unknown if it cannot be made here. -/
inductive Status where
  | success
  | error
  | unknown
deriving DecidableEq, Repr

namespace Network

def all : List Network := [.internal, .external]

def name : Network → String
  | .internal => "internal"
  | .external => "public"

def ofName? (s : String) : Option Network :=
  if s = "internal" then some .internal else if s = "public" then some .external else none

@[simp] theorem ofName?_name (n : Network) : ofName? n.name = some n := by cases n <;> rfl

end Network

namespace Protocol

def all : List Protocol := [.http, .tcp, .udp, .icmp]

def name : Protocol → String
  | .http => "HTTP"
  | .tcp => "TCP"
  | .udp => "UDP"
  | .icmp => "ICMP"

def ofName? (s : String) : Option Protocol :=
  if s = "HTTP" then some .http
  else if s = "TCP" then some .tcp
  else if s = "UDP" then some .udp
  else if s = "ICMP" then some .icmp
  else none

@[simp] theorem ofName?_name (p : Protocol) : ofName? p.name = some p := by cases p <;> rfl

end Protocol

namespace Status

def all : List Status := [.success, .error, .unknown]

def name : Status → String
  | .success => "success"
  | .error => "error"
  | .unknown => "unknown"

def ofName? (s : String) : Option Status :=
  if s = "success" then some .success
  else if s = "error" then some .error
  else if s = "unknown" then some .unknown
  else none

@[simp] theorem ofName?_name (s : Status) : ofName? s.name = some s := by cases s <;> rfl

end Status

/-- What is said of a name that is none of those wanted. -/
def unknownNameMessage (name : String) : String := "unknown variant " ++ Text.quoted name

end PeerHealth
