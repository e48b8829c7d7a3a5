import PeerHealth.Json.Token
import PeerHealth.Text.Utf8

/-! The text that the bytes between two quotes stand for. -/

namespace PeerHealth.Json

/-- Why escapes could not be resolved: half of a surrogate pair stands alone, or the bytes end in
the middle of an escape or a pair. -/
inductive EscapeFault where
  | loneSurrogate
  | unfinished
deriving DecidableEq, Repr

/-- The byte that a backslash and the letter `b` stand for. -/
def escapedByte (b : UInt8) : UInt8 :=
  if b == 0x62 then 0x08
  else if b == 0x66 then 0x0c
  else if b == 0x6e then 0x0a
  else if b == 0x72 then 0x0d
  else if b == 0x74 then 0x09
  else b

/-- The number written by four hexadecimal digits. -/
def hexNumber (a b c d : UInt8) : Nat :=
  let digit (x : UInt8) := (hexValue? x).getD 0
  ((digit a * 16 + digit b) * 16 + digit c) * 16 + digit d

/-- Puts the bytes of the code point `n` before `done`, which is kept last first. -/
def pushCodePoint (n : Nat) (done : List UInt8) : List UInt8 :=
  (String.utf8EncodeChar (Char.ofNat n)).reverse ++ done

/-- Resolves escapes. `lead` is the first half of a surrogate pair whose other half must follow;
what is resolved so far is kept last first. -/
def unescapeFrom (lead : Option Nat) (done : List UInt8) :
    List UInt8 → Except EscapeFault (List UInt8)
  | 0x5c :: 0x75 :: a :: b :: c :: d :: rest =>
    let n := hexNumber a b c d
    match lead with
    | none =>
      if 0xdc00 ≤ n ∧ n ≤ 0xdfff then .error .loneSurrogate
      else if 0xd800 ≤ n ∧ n ≤ 0xdbff then unescapeFrom (some n) done rest
      else unescapeFrom none (pushCodePoint n done) rest
    | some m =>
      if 0xdc00 ≤ n ∧ n ≤ 0xdfff then
        unescapeFrom none (pushCodePoint ((m - 0xd800) * 1024 + (n - 0xdc00) + 0x10000) done) rest
      else .error .loneSurrogate
  | [0x5c] => .error .unfinished
  | 0x5c :: b :: rest =>
    if b == 0x75 then .error .unfinished
    else if lead.isSome then .error .loneSurrogate
    else unescapeFrom none (escapedByte b :: done) rest
  | [] => if lead.isSome then .error .unfinished else .ok done.reverse
  | b :: rest => if lead.isSome then .error .loneSurrogate else unescapeFrom none (b :: done) rest

/-- The text that the bytes of a closed text token stand for. -/
def readText (bytes : List UInt8) : Except Problem String :=
  match unescapeFrom none [] bytes with
  | .error _ => .error .malformed
  | .ok resolved =>
    match Text.Utf8.decode resolved with
    | .ok s => .ok s
    | .error _ => .error .malformed

/-- The first problem met in a text token that is not closed, when its text is wanted: half a
surrogate pair comes before whatever breaks the token off. -/
def brokenTextProblem (bytes : List UInt8) (problem : Problem) : Problem :=
  match unescapeFrom none [] bytes with
  | .error .loneSurrogate => .malformed
  | _ => problem

end PeerHealth.Json
