import PeerHealth.Text.Blank
import PeerHealth.Text.Lines
import PeerHealth.Text.Quoted
import PeerHealth.Text.Utf8
import PeerHealth.Number.Reading
import PeerHealth.Number.Shortest
import PeerHealth.Json.Record
import PeerHealth.Json.Writer
import PeerHealth.Time.Duration
import PeerHealth.Time.Stored
import PeerHealth.Registry.Report
import PeerHealth.Address.Literal
import PeerHealth.Wire.Identity
import PeerHealth.Wire.Reply
import PeerHealth.Wire.Refusal
import PeerHealth.Settings.Read
import PeerHealth.Store.SelfRecord
import PeerHealth.Store.Checks
import PeerHealth.Store.Logs
import PeerHealth.Probe.Echo
import PeerHealth.Probe.Run
import PeerHealth.Responder.Node
import PeerHealth.Journal.Pipeline
import PeerHealth.Scheduler.SelfIdentity
import PeerHealth.Scheduler.Tick
import PeerHealth.Proofs.Scheduler.Gossip
import PeerHealth.Proofs.Scheduler.Observation
import PeerHealth.Proofs.Scheduler.Settling
import PeerHealth.Proofs.Scheduler.Ticks
import PeerHealth.Proofs.Store.Atomicity
import PeerHealth.Proofs.Store.Commuting
import PeerHealth.Proofs.Store.Ledger
import PeerHealth.Proofs.Store.Listing
import PeerHealth.Proofs.Store.Lookup
import PeerHealth.Proofs.Store.Retention
import PeerHealth.Proofs.Store.Rollup
import PeerHealth.Proofs.Store.SelfHistory
import PeerHealth.Proofs.Store.Uniqueness
import PeerHealth.Proofs.Time.Reading
import PeerHealth.Proofs.Wire.Codec
import PeerHealth.Proofs.Number.Binary64
import PeerHealth.Proofs.Settings.Hosts
import PeerHealth.Proofs.Settings.Runnable
import PeerHealth.Proofs.Probe.Line
import PeerHealth.Proofs.Probe.Outcomes
import PeerHealth.Proofs.Probe.Retries
import PeerHealth.Proofs.Probe.Replies
import PeerHealth.Proofs.Address.Target
import PeerHealth.Proofs.Responder.Chunks
import PeerHealth.Proofs.Responder.Greeting
import PeerHealth.Proofs.Text.Order
import PeerHealth.Proofs.Responder.Identity
import PeerHealth.Proofs.Responder.LineEndings
import PeerHealth.Proofs.Store.Chronology
import PeerHealth.Proofs.Wire.Compatibility
import PeerHealth.Proofs.Scheduler.Alarm
import PeerHealth.Proofs.Scheduler.Occupancy
import PeerHealth.Proofs.Scheduler.Loop
import PeerHealth.Proofs.Scheduler.Ending
import PeerHealth.Proofs.Journal.Pipeline
