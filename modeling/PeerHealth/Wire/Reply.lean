import PeerHealth.Json.Record
import PeerHealth.Json.Writer
import PeerHealth.Text.Utf8

/-! The reply to a line: one line of JSON that says whether it was taken and repeats it. -/

namespace PeerHealth.Wire

open Json (Record Problem)

structure Reply where
  status : String
  received : String := ""
  error : String := ""
deriving DecidableEq, Repr, Inhabited

structure ReplyDraft where
  status : Option String := none
  received : Option String := none
  error : Option String := none

/-- A status, and perhaps the line received and an error. -/
def replyRecord : Record ReplyDraft Reply where
  blank := {}
  fields :=
    [Json.textField "status" true (·.status) fun draft s => { draft with status := some s },
     Json.textField "receivedInput" false (·.received) fun draft s =>
       { draft with received := some s },
     Json.textField "error" false (·.error) fun draft s => { draft with error := some s }]
  finish := fun draft =>
    draft.status.map fun status => ⟨status, draft.received.getD "", draft.error.getD ""⟩

namespace Reply

def success (line : String) : Reply := { status := "success", received := line }

def failure (message : String) : Reply := { status := "error", error := message }

def isSuccess (r : Reply) : Bool := r.status = "success"

def ofBytes? (bytes : List UInt8) : Except Problem Reply := Json.whole replyRecord.read bytes

def write (r : Reply) : List Char :=
  Json.writeObject
    [("status", Json.writeText r.status), ("receivedInput", Json.writeText r.received),
      ("error", Json.writeText r.error)]

def toLine (r : Reply) : String := String.ofList (r.write ++ ['\n'])

end Reply
end PeerHealth.Wire
