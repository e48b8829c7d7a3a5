import PeerHealth.Time.Instant

/-! Lines of the log. -/

namespace PeerHealth.Journal

/-- A line as it is kept. -/
structure Entry where
  level : String
  target : String
  message : String
  createdAt : Time.Instant
deriving DecidableEq, Repr

end PeerHealth.Journal
