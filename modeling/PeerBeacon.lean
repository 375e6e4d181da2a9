import PeerBeacon.Tick
import PeerBeacon.Announcement
import PeerBeacon.Notice
import PeerBeacon.Slot.Scheme
import PeerBeacon.Slot.Scheduler
import PeerBeacon.Settings.Basic
import PeerBeacon.Settings.Fault
import PeerBeacon.Peer.Record
import PeerBeacon.Peer.Transition
import PeerBeacon.Roster.Ring
import PeerBeacon.Roster.Basic
import PeerBeacon.Roster.Edit
import PeerBeacon.Tracker
import PeerBeacon.Node.Basic
import PeerBeacon.Node.Slot
import PeerBeacon.Json.Skim
import PeerBeacon.Json.Bare
import PeerBeacon.Json.Compact
import PeerBeacon.Console.LineBuffer
import PeerBeacon.Console.Request
import PeerBeacon.Console.Station
import PeerBeacon.Console.Message
import PeerBeacon.Board
import PeerBeacon.Proofs.Directory
import PeerBeacon.Proofs.Seconds
import PeerBeacon.Proofs.Roster.Walk
import PeerBeacon.Proofs.Roster.Gap
import PeerBeacon.Proofs.Roster.Entries
import PeerBeacon.Proofs.Roster.Search
import PeerBeacon.Proofs.Roster.Coherence
import PeerBeacon.Proofs.Roster.Faithful
import PeerBeacon.Proofs.Roster.Membership
import PeerBeacon.Proofs.Roster.Ledger
import PeerBeacon.Proofs.Roster.Recast
import PeerBeacon.Proofs.Roster.Memory
import PeerBeacon.Proofs.Roster.Safety
import PeerBeacon.Proofs.Slot.Rendezvous
import PeerBeacon.Proofs.Tracker.Peer
import PeerBeacon.Proofs.Tracker.Holds
import PeerBeacon.Proofs.Tracker.Census
import PeerBeacon.Proofs.Tracker.View
import PeerBeacon.Proofs.Tracker.Course
import PeerBeacon.Proofs.Tracker.Cadence
import PeerBeacon.Proofs.Tracker.Translation
import PeerBeacon.Proofs.Tracker.Settled
import PeerBeacon.Proofs.Tracker.Register
import PeerBeacon.Proofs.Tracker.Shift
import PeerBeacon.Proofs.Tracker.Lone
import PeerBeacon.Proofs.Tracker.Sighting
import PeerBeacon.Proofs.Node.FullSlot
import PeerBeacon.Proofs.Node.Radio
import PeerBeacon.Proofs.Node.Rollover
import PeerBeacon.Proofs.Node.Encounter
import PeerBeacon.Proofs.Node.Discovery
import PeerBeacon.Proofs.Tracker.Diary
import PeerBeacon.Proofs.Tracker.Vigil
import PeerBeacon.Proofs.Tracker.Timing
import PeerBeacon.Proofs.Tracker.Provenance
import PeerBeacon.Proofs.Tracker.Stragglers
import PeerBeacon.Proofs.Tracker.Rest
import PeerBeacon.Proofs.Node.Idle
import PeerBeacon.Proofs.Node.Accounts
import PeerBeacon.Proofs.Console.Control
import PeerBeacon.Proofs.Node.Discard
import PeerBeacon.Proofs.Slot.Strangers
import PeerBeacon.Proofs.Json.Encoding
import PeerBeacon.Proofs.Json.Written
import PeerBeacon.Proofs.Json.Grammar
import PeerBeacon.Proofs.Json.Outcome
import PeerBeacon.Proofs.Json.Words
import PeerBeacon.Proofs.Json.Reading
import PeerBeacon.Proofs.Console.Framing
import PeerBeacon.Proofs.Console.Wording
import PeerBeacon.Proofs.Slot.DutyCycle
import PeerBeacon.Proofs.Slot.Seeds
import PeerBeacon.Proofs.Node.Cycle
import PeerBeacon.Proofs.Tracker.Exactness
import PeerBeacon.Proofs.Console.Segments
import PeerBeacon.Proofs.Json.Readback
import PeerBeacon.Proofs.Console.Telemetry
import PeerBeacon.Proofs.Frames
import PeerBeacon.Proofs.Roster.Visit
import PeerBeacon.Proofs.Roster.Clusters
import PeerBeacon.Proofs.Roster.Stranded
import PeerBeacon.Proofs.Tracker.InStep
import PeerBeacon.Proofs.Roster.Intact
import PeerBeacon.Proofs.Tracker.Arrivals
