import PeerBeacon.Slot.Scheduler
import PeerBeacon.Tracker

/-!
# A node

A node joins a slot scheduler to a tracker of peers and counts what happens.  It has no clock and no
radio: receptions, clock readings and the passing of slots are handed to it.

The tracker is swept once per completed cycle of the schedule (`Node.sweepIfCycleComplete`), and,
while the schedule is stopped, at most once per second (`Node.idle`).
-/

namespace PeerBeacon

/-- Running counts, each modulo `2 ^ 32`. -/
structure Counters where
  /-- Announcements sent. -/
  sent : UInt32 := 0
  /-- Announcements received from other nodes. -/
  received : UInt32 := 0
  /-- Those of them that were too weak to count. -/
  weak : UInt32 := 0
  /-- Announcements under the reserved id or the node's own. -/
  rejected : UInt32 := 0
  detections : UInt32 := 0
  leaves : UInt32 := 0
  absences : UInt32 := 0
  deriving DecidableEq, Repr

namespace Counters

/-- Counts an event. -/
def count (c : Counters) : Event → Counters
  | .detect .. => { c with detections := c.detections + 1 }
  | .leave .. => { c with leaves := c.leaves + 1 }
  | .absent .. => { c with absences := c.absences + 1 }

/-- Counts events. -/
def countAll (c : Counters) (events : List Event) : Counters :=
  events.foldl count c

end Counters

/-- An announcement as the radio delivers it. -/
structure Reception where
  announcement : Announcement
  /-- The signal strength in dBm. -/
  rssi : Int16
  /-- The node's own clock at delivery; the sender's time plays no part. -/
  heard : Tick
  deriving DecidableEq, Repr

/-- The state of a node. -/
structure Node (buckets records : Nat) where
  scheduler : Scheduler
  tracker : Tracker buckets records
  counters : Counters := {}
  /-- The number of completed cycles at the last sweep that a cycle called for. -/
  sweptCycles : UInt32 := 0
  /-- The reading of the clock at the last sweep while idle. -/
  idleSweptAt : Option Tick := none
  deriving DecidableEq, Repr

namespace Node

variable {buckets records : Nat}

/-- A node that has just been switched on. -/
def start (buckets records : Nat) (id : NodeId) (settings : Settings) : Node buckets records where
  scheduler := .start id settings.schedule
  tracker := .start buckets records settings.thresholds

/-! ## What a node shows -/

/-- The id of the node. -/
def id (n : Node buckets records) : NodeId :=
  n.scheduler.nodeId

/-- The number of peers that it tracks. -/
def trackedCount (n : Node buckets records) : Nat :=
  n.tracker.roster.count

/-- The number of peers that are present or leaving. -/
def presentCount (n : Node buckets records) : Nat :=
  n.tracker.detectedCount

/-- The number of peers turned away for lack of room. -/
def refusals (n : Node buckets records) : UInt32 :=
  n.tracker.roster.refusals

/-! ## Receptions -/

/-- A reception that cannot concern a peer. -/
def rejects (n : Node buckets records) (r : Reception) : Bool :=
  !r.announcement.hasValidSource || r.announcement.source == n.id

/-- Takes a reception in. -/
def receive (n : Node buckets records) (r : Reception) :
    Outcome (Node buckets records) (Option Event) :=
  if n.rejects r then
    { state := { n with counters.rejected := n.counters.rejected + 1 }
      answer := none }
  else if n.tracker.thresholds.qualifies r.rssi then
    let outcome := n.tracker.receive r.announcement.source r.rssi r.heard
    let counters := { n.counters with received := n.counters.received + 1 }
    { state :=
        { n with
          tracker := outcome.state
          counters := counters.countAll outcome.answer.toList }
      answer := outcome.answer
      notices := outcome.notices }
  else
    { state :=
        { n with
          counters.received := n.counters.received + 1
          counters.weak := n.counters.weak + 1 }
      answer := none }

/-! ## Slots and announcements -/

/-- Begins the next slot. -/
def advance (n : Node buckets records) : SlotAction × Node buckets records :=
  (n.scheduler.action, { n with scheduler := n.scheduler.step })

/-- The next announcement, sent at `now`. -/
def stamp (n : Node buckets records) (now : Tick) : Announcement × Node buckets records :=
  let (announcement, scheduler) := n.scheduler.stamp now
  (announcement, { n with scheduler, counters.sent := n.counters.sent + 1 })

/-- Takes note that the radio is switched off because the schedule is stopped. -/
def stop (n : Node buckets records) : Node buckets records :=
  { n with scheduler := n.scheduler.releaseRadio }

/-! ## Sweeps -/

/-- Sweeps the tracker at `now`. -/
def sweep (n : Node buckets records) (now : Tick) :
    Outcome (Node buckets records) (List Event) :=
  let outcome := n.tracker.sweep now
  { outcome with
    state :=
      { n with
        tracker := outcome.state
        counters := n.counters.countAll outcome.answer } }

/-- Sweeps at `now` if a cycle was completed since the last such sweep. -/
def sweepIfCycleComplete (n : Node buckets records) (now : Tick) :
    Outcome (Node buckets records) (List Event) :=
  if n.scheduler.cycles = n.sweptCycles then
    { state := n, answer := [] }
  else
    { n with sweptCycles := n.scheduler.cycles }.sweep now

/-- A slot passes at `now` while the schedule is stopped: peers keep aging, second by second. -/
def idle (n : Node buckets records) (now : Tick) :
    Outcome (Node buckets records) (List Event) :=
  if n.idleSweptAt = some now then
    { state := n, answer := [] }
  else
    { n with idleSweptAt := some now }.sweep now

/-! ## The signal threshold -/

/-- Moves the signal threshold. -/
def setMinRssi (n : Node buckets records) (minRssi : Int16) :
    Outcome (Node buckets records) Unit where
  state := { n with tracker := n.tracker.setMinRssi minRssi }
  answer := ()
  notices := [.thresholdSet minRssi]

@[simp] theorem scheduler_sweep (n : Node buckets records) (now : Tick) :
    (n.sweep now).state.scheduler = n.scheduler := rfl

@[simp] theorem scheduler_receive (n : Node buckets records) (r : Reception) :
    (n.receive r).state.scheduler = n.scheduler := by
  unfold receive
  split
  · rfl
  · split <;> rfl

end Node

end PeerBeacon
