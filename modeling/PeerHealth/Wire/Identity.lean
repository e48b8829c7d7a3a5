import PeerHealth.Json.Record
import PeerHealth.Json.Writer
import PeerHealth.Registry.Host
import PeerHealth.Text.Utf8

/-! The identity document: how a node tells others its name and its addresses. -/

namespace PeerHealth.Wire

open Json (Record Field Problem)

/-- The addresses that a node gives out; an empty one means none. -/
structure Addresses where
  internal : String := ""
  external : String := ""
deriving DecidableEq, Repr, Inhabited

/-- What a node says of itself, or of a host it knows. -/
structure Document where
  hostname : String
  addresses : Addresses := {}
deriving DecidableEq, Repr, Inhabited

structure AddressesDraft where
  internal : Option String := none
  external : Option String := none

/-- Two optional texts. -/
def addressesRecord : Record AddressesDraft Addresses where
  blank := {}
  fields :=
    [Json.textField "internal" false (·.internal) fun draft s => { draft with internal := some s },
     Json.textField "public" false (·.external) fun draft s => { draft with external := some s }]
  finish := fun draft => some ⟨draft.internal.getD "", draft.external.getD ""⟩

structure DocumentDraft where
  hostname : Option String := none
  addresses : Option Addresses := none

/-- A hostname, and perhaps addresses. -/
def documentRecord : Record DocumentDraft Document where
  blank := {}
  fields :=
    [Json.textField "hostname" true (·.hostname) fun draft s => { draft with hostname := some s },
     { name := "addresses", required := false, filled := (·.addresses.isSome)
       read := fun draft ts =>
         (addressesRecord.read ts).map fun (a, rest) =>
           ({ draft with addresses := some a }, rest) }]
  finish := fun draft => draft.hostname.map fun hostname => ⟨hostname, draft.addresses.getD {}⟩

namespace Document

def ofBytes? (bytes : List UInt8) : Except Problem Document := Json.whole documentRecord.read bytes

def listOfBytes? (bytes : List UInt8) : Except Problem (List Document) :=
  Json.whole documentRecord.readList bytes

def write (d : Document) : List Char :=
  Json.writeObject
    [("hostname", Json.writeText d.hostname),
      ("addresses", Json.writeObject
        [("internal", Json.writeText d.addresses.internal),
          ("public", Json.writeText d.addresses.external)])]

def toJson (d : Document) : String := String.ofList d.write

def listToJson (ds : List Document) : String := String.ofList (Json.writeArray (ds.map write))

/-- What a node says of a host that it knows. -/
def ofHost (h : Host) : Document := ⟨h.hostname, ⟨h.internalAddress, h.publicAddress⟩⟩

/-- The identity of a node that said `d`, was found at an address and serves on a port. -/
def toIdentity (d : Document) (discovered : String) (port : UInt16) : Identity :=
  { hostname := d.hostname
    internalAddress := d.addresses.internal
    publicAddress := d.addresses.external
    discoveredAddress := discovered
    servicePort := port }

end Document
end PeerHealth.Wire
