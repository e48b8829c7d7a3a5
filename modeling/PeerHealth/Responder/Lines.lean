import PeerHealth.Wire.Reply

/-! The line responder: it repeats each line that a peer sends. A line that is too long or is not
text is refused, and the connection ends there. -/

namespace PeerHealth.Responder

/-- The greatest length of a line in bytes, without the newline. -/
def maxLine : Nat := 4096

def newlineByte : UInt8 := 10

def isLineEnd (c : Char) : Bool := c = '\r' || c = '\n'

/-- The line without the end of line characters at its end. -/
def chomp (s : String) : String := String.ofList (s.toList.reverse.dropWhile isLineEnd).reverse

def tooLong : Wire.Reply := .failure s!"line exceeds {maxLine} bytes"

/-- The reply to a line as it was received, with its newline if it has one, and whether the
connection goes on after it. -/
def answerLine (line : List UInt8) : Wire.Reply × Bool :=
  match Text.Utf8.decode line with
  | .error fault => (.failure fault.message, false)
  | .ok s =>
    if maxLine < line.length ∧ line.getLast? ≠ some newlineByte then (tooLong, false)
    else (.success (chomp s), true)

/-- A connection: the bytes of a line that is not complete yet, last first, and how many more there
may be; or nothing more once the responder has ended it. -/
inductive Session where
  | reading (pending : List UInt8) (room : Nat)
  | ended
deriving DecidableEq, Repr

namespace Session

def fresh : Session := .reading [] (maxLine + 1)

/-- The connection after a line, and the reply to it. -/
def afterLine (pending : List UInt8) : Session × List Wire.Reply :=
  let (reply, goesOn) := answerLine pending.reverse
  (if goesOn then fresh else .ended, [reply])

/-- Takes one byte. A line is complete with its newline, or when there is no more room. -/
def take (s : Session) (b : UInt8) : Session × List Wire.Reply :=
  match s with
  | .ended => (.ended, [])
  | .reading pending room =>
    if b = newlineByte ∨ room ≤ 1 then afterLine (b :: pending)
    else (.reading (b :: pending) (room - 1), [])

def takeAll (s : Session) : List UInt8 → Session × List Wire.Reply
  | [] => (s, [])
  | b :: bytes =>
    let (s, now) := s.take b
    let (s, later) := s.takeAll bytes
    (s, now ++ later)

/-- It does not matter in which pieces bytes come. -/
theorem takeAll_append (s : Session) (bytes more : List UInt8) :
    s.takeAll (bytes ++ more) =
      (((s.takeAll bytes).1.takeAll more).1,
        (s.takeAll bytes).2 ++ ((s.takeAll bytes).1.takeAll more).2) := by
  induction bytes generalizing s with
  | nil => simp [takeAll]
  | cons b bytes ih => simp [takeAll, ih, List.append_assoc]

/-- What is replied when the peer sends no more: a line without a newline is a line too. -/
def finish : Session → List Wire.Reply
  | .ended => []
  | .reading [] _ => []
  | .reading pending _ => (afterLine pending).2

end Session

/-- How a peer ends: it sends no more and says so, or it falls silent until the responder gives up
on it. -/
inductive Ending where
  | closed
  | idle
deriving DecidableEq, Repr

/-- The replies to all that a peer sends. -/
def replies (bytes : List UInt8) (ending : Ending) : List Wire.Reply :=
  let (session, sent) := Session.fresh.takeAll bytes
  match ending with
  | .closed => sent ++ session.finish
  | .idle => sent

end PeerHealth.Responder
