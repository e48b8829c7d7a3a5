import PeerHealth.Probe.Outcome
import PeerHealth.Text.Blank
import PeerHealth.Text.Quoted
import PeerHealth.Wire.Reply

/-! The line probe: a node connects to a peer, sends its own name as a line, and reads a line that
must be the reply of success. -/

namespace PeerHealth.Probe.Line

def newline : UInt8 := 10

/-- What a node sends. -/
def greeting (hostname : String) : List UInt8 := Text.Utf8.encode hostname ++ [newline]

/-- What becomes of a connection. -/
inductive Answer where
  /-- It cannot be made. -/
  | refused
  /-- It breaks while the line is sent. -/
  | unsent
  /-- It breaks while the reply is read. -/
  | broken
  /-- The peer sends these bytes in time, and then perhaps closes the connection. -/
  | sent (bytes : List UInt8) (closes : Bool)
deriving DecidableEq, Repr

/-- The bytes up to the first newline and with it, if there is one. -/
def firstLine? : List UInt8 → Option (List UInt8)
  | [] => none
  | b :: bytes => if b = newline then some [b] else (firstLine? bytes).map (b :: ·)

/-- The line that a peer sends, which the end of the connection may end too. -/
def readLine (timeout : Duration) : Answer → Except Fault (List UInt8)
  | .refused => .error (.network "dial failed")
  | .unsent => .error (.network "write failed")
  | .broken => .error (.network "read failed")
  | .sent bytes closes =>
    match firstLine? bytes with
    | some line => .ok line
    | none => if closes then .ok bytes else .error (.timedOut timeout)

/-- What a peer's reply says, without the white space that the line ends in. -/
def judge (line : List UInt8) : Except Fault String :=
  if line = [] then .error (.protocol "connection closed without response")
  else
    match Text.Utf8.decode line with
    | .error _ => .error (.network "read failed")
    | .ok s =>
      let s := Text.trimEnd s
      match Wire.Reply.ofBytes? (Text.Utf8.encode s) with
      | .error _ => .error (.protocol "malformed response")
      | .ok reply =>
        if reply.isSuccess then .ok s
        else if reply.error = "" then
          .error (.protocol ("peer reported status " ++ Text.quoted reply.status))
        else .error (.protocol reply.error)

def run (timeout : Duration) (answer : Answer) : Except Fault String :=
  (readLine timeout answer).bind judge

end PeerHealth.Probe.Line
