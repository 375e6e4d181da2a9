import PeerBeacon.Json.Compact
import PeerBeacon.Node.Basic

/-!
# Messages to the companion

A node tells its companion of events and of its status in one-line JSON objects.  The first member,
`type`, says which kind of message it is; the order of the others is fixed.

A message is put into a buffer of given capacity, followed by a line feed.  A buffer that holds just
the object and no more gets the object without the line feed.
-/

namespace PeerBeacon

/-- The version that a node reports. -/
def version : String := "0.1.0"

/-- The status of a node. -/
structure StatusReport where
  /-- The slot schedule is running. -/
  running : Bool
  /-- The uptime in seconds. -/
  uptime : UInt32
  node : NodeId
  tracked : UInt8
  present : UInt8
  refusals : UInt32
  counters : Counters
  minRssi : Int16
  /-- The free memory in bytes. -/
  heapFree : UInt32
  board : String
  version : String
  deriving DecidableEq, Repr

/-- A message to the companion. -/
inductive Message where
  /-- An event, reported at `uptime`. -/
  | event (event : Event) (uptime : UInt32)
  /-- A status report. -/
  | status (report : StatusReport)
  deriving DecidableEq, Repr

namespace Message

open Json

/-- An unsigned word as a JSON number. -/
def word (w : UInt32) : Scalar :=
  .number w.toNat

/-- The members of a message, in order. -/
def members : Message → List (String × Scalar)
  | event (.detect id since) uptime =>
    [("type", .text "detect"), ("id", word id), ("since", word since), ("ts", word uptime)]
  | event (.leave id since) uptime =>
    [("type", .text "leave"), ("id", word id), ("since", word since), ("ts", word uptime)]
  | event (.absent id since dwell) uptime =>
    [("type", .text "absent"), ("id", word id), ("since", word since), ("dwell", word dwell),
      ("ts", word uptime)]
  | status r =>
    [("type", .text "status"), ("running", .flag r.running), ("uptime", word r.uptime),
      ("node", word r.node), ("tracked", .number r.tracked.toNat),
      ("present", .number r.present.toNat), ("table_full", word r.refusals),
      ("sent", word r.counters.sent), ("received", word r.counters.received),
      ("weak", word r.counters.weak), ("rejected", word r.counters.rejected),
      ("detections", word r.counters.detections), ("leaves", word r.counters.leaves),
      ("absences", word r.counters.absences), ("min_rssi", .number r.minRssi.toInt),
      ("heap_free", word r.heapFree), ("board", .text r.board), ("version", .text r.version)]

/-- The object that a message is written as. -/
def written (m : Message) : List Char :=
  writtenObject m.members

/-- The bytes of that object. -/
def bytes (m : Message) : List UInt8 :=
  m.written.flatMap String.utf8EncodeChar

/-- The number of bytes that a message may take with its line feed. -/
def maxLength : Nat := 512

/-- The bits per second of the serial line. -/
def baudRate : Nat := 115200

/-- What a message leaves in a buffer: nothing if the object does not fit. -/
def serialize (m : Message) (capacity : Nat) : Option (List UInt8) :=
  if capacity < m.bytes.length then none
  else if m.bytes.length = capacity then some m.bytes
  else some (m.bytes ++ [0x0A])

/-- What is put into the buffer fits. -/
theorem length_serialize_le {m : Message} {capacity : Nat} {s : List UInt8}
    (h : m.serialize capacity = some s) : s.length ≤ capacity := by
  unfold serialize at h
  split at h
  · cases h
  · split at h <;> cases h
    · omega
    · simp only [List.length_append, List.length_singleton]
      omega

end Message

/-- The status of a node, given what it cannot know itself. -/
def Node.statusReport {buckets records : Nat} (n : Node buckets records) (running : Bool)
    (uptime heapFree : UInt32) (board version : String) : StatusReport where
  running := running
  uptime := uptime
  node := n.id
  tracked := UInt8.ofNat n.trackedCount
  present := UInt8.ofNat n.presentCount
  refusals := n.refusals
  counters := n.counters
  minRssi := n.tracker.thresholds.minRssi
  heapFree := heapFree
  board := board
  version := version

end PeerBeacon
