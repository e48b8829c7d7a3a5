import PeerHealth.Json.Record
import PeerHealth.Json.Writer
import PeerHealth.Text.Utf8

/-! The body with which an endpoint says why it gives no answer. -/

namespace PeerHealth.Wire

open Json (Record Problem)

/-- Why there is no answer. -/
structure Refusal where
  kind : String
  message : String
deriving DecidableEq, Repr, Inhabited

structure RefusalDraft where
  kind : Option String := none
  message : Option String := none

/-- A kind and a message. -/
def refusalRecord : Record RefusalDraft Refusal where
  blank := {}
  fields :=
    [Json.textField "type" true (·.kind) fun draft s => { draft with kind := some s },
     Json.textField "message" true (·.message) fun draft s => { draft with message := some s }]
  finish := fun draft =>
    draft.kind.bind fun kind => draft.message.map fun message => ⟨kind, message⟩

namespace Refusal

def ofBytes? (bytes : List UInt8) : Except Problem Refusal := Json.whole refusalRecord.read bytes

def toJson (r : Refusal) : String :=
  String.ofList <| Json.writeObject
    [("type", Json.writeText r.kind), ("message", Json.writeText r.message)]

end Refusal
end PeerHealth.Wire
