import PeerHealth.Address.IPv4

/-! IPv6 addresses: groups of four hexadecimal digits with colons between them, the last two groups
perhaps as an IPv4 address, and one run of zero groups perhaps left out. Many texts stand for one
address; `render` chooses one of them. -/

namespace PeerHealth.Address

/-- An IPv6 address by its eight groups. -/
structure IPv6 where
  groups : List UInt16
  length_groups : groups.length = 8 := by simp
deriving DecidableEq, Repr

/-- The value of a hexadecimal digit of either case. -/
def hexDigit? (c : Char) : Option Nat :=
  let n := c.toNat
  if 48 ≤ n ∧ n ≤ 57 then some (n - 48)
  else if 97 ≤ n ∧ n ≤ 102 then some (n - 87)
  else if 65 ≤ n ∧ n ≤ 70 then some (n - 55)
  else none

def hexValue (cs : List Char) : Nat := cs.foldl (fun n c => 16 * n + (hexDigit? c).getD 0) 0

def hexText (n : Nat) : List Char :=
  if n < 16 then [Text.hexDigit n] else hexText (n / 16) ++ [Text.hexDigit (n % 16)]

namespace IPv6

/-- A group at the front: one to four hexadecimal digits. -/
def group? (cs : List Char) : Option (UInt16 × List Char) :=
  let ds := cs.takeWhile fun c => (hexDigit? c).isSome
  if ds = [] ∨ 4 < ds.length then none else some (UInt16.ofNat (hexValue ds), cs.drop ds.length)

/-- The two groups that an IPv4 address fills. -/
def groupsOf (ip : IPv4) : List UInt16 :=
  [ip.a.toUInt16 * 256 + ip.b.toUInt16, ip.c.toUInt16 * 256 + ip.d.toUInt16]

/-- The groups at the front, at most `room`, with colons between them; whether they end in an IPv4
address, which takes the room of two; and what follows them. -/
def readGroups : Nat → Bool → List Char → List UInt16 × Bool × List Char
  | 0, _, cs => ([], false, cs)
  | room + 1, first, cs =>
    let body := if first then some cs else skip? ':' cs
    match if 0 < room then body.bind IPv4.read? else none with
    | some (ip, rest) => (groupsOf ip, true, rest)
    | none =>
      match body.bind group? with
      | some (g, rest) =>
        let (gs, dotted, rest) := readGroups room false rest
        (g :: gs, dotted, rest)
      | none => ([], false, cs)

/-- The address with the given groups at its start and at its end and zeros between. -/
def ofEnds? (start finish : List UInt16) : Option IPv6 :=
  let groups := start ++ List.replicate (8 - start.length - finish.length) 0 ++ finish
  if h : groups.length = 8 then some ⟨groups, h⟩ else none

/-- The address that a whole text stands for. A double colon stands for one zero group or more. -/
def parse? (s : String) : Option IPv6 :=
  let (start, dotted, cs) := readGroups 8 true s.toList
  if start.length = 8 then
    if cs = [] then ofEnds? start [] else none
  else if dotted then none
  else
    match cs with
    | ':' :: ':' :: cs =>
      let (finish, _, cs) := readGroups (7 - start.length) true cs
      if cs = [] then ofEnds? start finish else none
    | _ => none

/-- Where the first of the longest runs of zero groups starts, and how long it is. -/
def longestZeros : List UInt16 → Nat × Nat
  | [] => (0, 0)
  | g :: gs =>
    let here := ((g :: gs).takeWhile (· = 0)).length
    let (start, length) := longestZeros gs
    if length ≤ here then (0, here) else (start + 1, length)

def renderGroups : List UInt16 → List Char
  | [] => []
  | [g] => hexText g.toNat
  | g :: gs => hexText g.toNat ++ ':' :: renderGroups gs

/-- The IPv4 address that stands behind an address of the form ::ffff:a.b.c.d. -/
def mapped? (ip : IPv6) : Option IPv4 :=
  match ip.groups with
  | [0, 0, 0, 0, 0, 0xffff, g, h] =>
    some ⟨(g / 256).toUInt8, g.toUInt8, (h / 256).toUInt8, h.toUInt8⟩
  | _ => none

/-- The usual text: small letters, no leading zeros, the first of the longest runs of two or more
zero groups left out, and the last two groups of a mapped IPv4 address in dotted decimal. -/
def render (ip : IPv6) : List Char :=
  match ip.mapped? with
  | some v4 => "::ffff:".toList ++ v4.render
  | none =>
    let (start, length) := longestZeros ip.groups
    if 1 < length then
      renderGroups (ip.groups.take start) ++
        ':' :: ':' :: renderGroups (ip.groups.drop (start + length))
    else renderGroups ip.groups

end IPv6
end PeerHealth.Address
