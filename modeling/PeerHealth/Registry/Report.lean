import PeerHealth.Journal.Entry
import PeerHealth.Json.Writer
import PeerHealth.Number.Shortest
import PeerHealth.Registry.Check
import PeerHealth.Registry.Host
import PeerHealth.Registry.Uptime
import PeerHealth.Time.Stored

/-! The records of a node as JSON text. -/

namespace PeerHealth

open Json (writeText writeInt writeObject writeTextOrNull)

def Report.writeTime (t : Time.Instant) : List Char := writeText (Time.rfc3339Text t)

/-- The members of a host; the address it was found at is not told. -/
def Report.hostMembers (h : Host) : List (String × List Char) :=
  [("id", writeInt h.id), ("hostname", writeText h.hostname),
    ("internalAddress", writeText h.internalAddress),
    ("publicAddress", writeText h.publicAddress),
    ("servicePort", writeInt h.servicePort.toNat),
    ("firstSeenAt", writeTime h.firstSeen), ("lastSeenAt", writeTime h.lastSeen)]

def Host.toJson (h : Host) : String := String.ofList (writeObject (Report.hostMembers h))

def SelfRecord.toJson (r : SelfRecord) : String :=
  String.ofList <| writeObject <| Report.hostMembers r.host ++
    [("restarts", writeInt r.restarts), ("firstStartAt", Report.writeTime r.firstStart),
      ("lastStartAt", Report.writeTime r.lastStart)]

def Check.toJson (c : Check) : String :=
  String.ofList <| writeObject
    [("id", writeInt c.id), ("hostId", writeInt c.host), ("network", writeText c.network.name),
      ("checkType", writeText c.protocol.name), ("status", writeText c.status.name),
      ("statusCode", writeInt c.code.toNat), ("latencyNs", writeInt c.latency),
      ("responseBody", writeTextOrNull c.body), ("error", writeTextOrNull c.error),
      ("checkedAt", Report.writeTime c.checkedAt)]

def Journal.Entry.toJson (e : Journal.Entry) : String :=
  String.ofList <| writeObject
    [("level", writeText e.level), ("target", writeText e.target),
      ("message", writeText e.message), ("created_at", Report.writeTime e.createdAt)]

/-- Counts, with the shortest decimal that reads back as their percentage. -/
def Report.writeCounts (c : Counts) : List Char :=
  writeObject
    [("successCount", writeInt c.successes), ("totalCount", writeInt c.total),
      ("percent", c.percent.shortest.render.toList)]

def Report.writeNetwork (u : NetworkUptime) : List Char :=
  writeObject
    [("total", writeCounts u.total), ("http", writeCounts u.http), ("tcp", writeCounts u.tcp),
      ("udp", writeCounts u.udp), ("icmp", writeCounts u.icmp)]

def Counts.toJson (c : Counts) : String := String.ofList (Report.writeCounts c)

def Uptime.toJson (u : Uptime) : String :=
  String.ofList <| writeObject
    [("hostId", writeInt u.host), ("total", Report.writeCounts u.total),
      ("internal", Report.writeNetwork u.internal), ("public", Report.writeNetwork u.external)]

end PeerHealth
