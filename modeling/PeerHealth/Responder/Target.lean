/-! The target of a request: a path with an optional query and fragment, alone or after the scheme
and the authority that it is meant for; or an authority or an asterisk, which have no such path. -/

namespace PeerHealth.Responder.Target

def maxLength : Nat := 65534

def maxScheme : Nat := 64

def isWordChar (c : Char) : Bool :=
  let n := c.toNat
  (48 ≤ n && n ≤ 57) || (65 ≤ n && n ≤ 90) || (97 ≤ n && n ≤ 122)

def isSchemeChar (c : Char) : Bool := isWordChar c || "+-.~".toList.contains c

/-- A character that an authority may hold anywhere. -/
def isAuthorityChar (c : Char) : Bool := isWordChar c || "-._~!$&'()*+,;=".toList.contains c

/-- A character of a path. What is not ASCII is let through. -/
def isPathChar (c : Char) : Bool := 33 ≤ c.toNat && !"#<>?`".toList.contains c

/-- A character of a query. What is not ASCII is let through. -/
def isQueryChar (c : Char) : Bool := 33 ≤ c.toNat && !"\"#<>".toList.contains c

/-- What follows the scheme and its `://`, if the target starts with one; `none` if the scheme is
too long. -/
def afterScheme (cs : List Char) : Option (Option (List Char)) :=
  let scheme := cs.takeWhile isSchemeChar
  match cs.drop scheme.length with
  | ':' :: '/' :: '/' :: rest => if maxScheme < scheme.length then none else some (some rest)
  | _ => some none

/-- What has been seen of an authority: the colons since the last at sign or closing bracket, the
brackets, whether a percent sign stands in front of neither, and whether an at sign came last. -/
structure Seen where
  colons : Nat := 0
  opened : Bool := false
  closed : Bool := false
  percent : Bool := false
  atSign : Bool := false
deriving DecidableEq, Repr

def Seen.next? (s : Seen) (c : Char) : Option Seen :=
  let s := { s with atSign := false }
  match c with
  | ':' => if 8 ≤ s.colons then none else some { s with colons := s.colons + 1 }
  | '[' => if s.percent || s.opened then none else some { s with opened := true }
  | ']' =>
    if !s.opened || s.closed then none
    else some { s with closed := true, colons := 0, percent := false }
  | '@' => some { s with colons := 0, percent := false, atSign := true }
  | '%' => some { s with percent := true }
  | c => if isAuthorityChar c then some s else none

/-- An authority: brackets in a pair, one colon at most before a port, no percent sign in the name
of a host, and something after an at sign. -/
def isAuthority (cs : List Char) : Bool :=
  match cs.foldlM Seen.next? {} with
  | none => false
  | some s => s.opened == s.closed && s.colons ≤ 1 && !s.percent && !s.atSign

/-- A character that an authority ends before. -/
def endsAuthority (c : Char) : Bool := c = '/' || c = '?' || c = '#'

/-- The path in front of a query and a fragment; without one it is the root. -/
def pathOnly? (cs : List Char) : Option String :=
  let path := cs.takeWhile fun c => c ≠ '?' && c ≠ '#'
  let query := match cs.drop path.length with
    | '?' :: rest => rest.takeWhile (· ≠ '#')
    | _ => []
  if path.all isPathChar && query.all isQueryChar then
    some (if path.isEmpty then "/" else String.ofList path)
  else none

/-- The path that a request is for, empty for a target without one; `none` if the text is not a
target. -/
def path? (target : String) : Option String :=
  let cs := target.toList
  if maxLength < target.utf8ByteSize then none
  else if cs.head? = some '/' then pathOnly? cs
  else if cs = ['*'] then some "*"
  else
    match afterScheme cs with
    | none => none
    | some none => if !cs.isEmpty && isAuthority cs then some "" else none
    | some (some rest) =>
      let authority := rest.takeWhile fun c => !endsAuthority c
      if authority.isEmpty || !isAuthority authority then none
      else pathOnly? (rest.drop authority.length)

end PeerHealth.Responder.Target
