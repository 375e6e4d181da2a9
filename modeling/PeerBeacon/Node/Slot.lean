import PeerBeacon.Node.Basic

/-!
# A full slot of a node

A node that may block runs a slot in one go (`Node.runSlot`): it begins the slot, switches the
radio, sends its announcements with one wait between two of them, and at last sweeps if the slot
completed a cycle.

What it does to the radio is recorded as a list of acts, in order.  The clock is read just before
each sending and once more at the end of the slot; a `SlotClock` says what these readings are.
-/

namespace PeerBeacon

/-- Something that a node does to its radio, or its waiting for one slot length. -/
inductive RadioAct where
  | switchOn
  | switchOff
  | send (announcement : Announcement)
  | wait
  deriving DecidableEq, Repr

/-- The readings of the clock during one slot. -/
structure SlotClock where
  /-- The reading just before a sending that `waits` waits precede. -/
  beforeFrame : (waits : Nat) → Tick
  /-- The reading at the end of a slot in which the node waited `waits` times. -/
  afterBurst : (waits : Nat) → Tick

namespace SlotClock

/-- A clock that does not move during the slot. -/
def steady (now : Tick) : SlotClock where
  beforeFrame _ := now
  afterBurst _ := now

/-- A clock that counts microseconds from `start`, and moves only during a wait. -/
def ofMicros (start perWait : Nat) : SlotClock where
  beforeFrame waits := UInt32.ofNat ((start + waits * perWait) / 1000000)
  afterBurst waits := UInt32.ofNat ((start + waits * perWait) / 1000000)

end SlotClock

/-- What a node did in one slot. -/
structure SlotReport where
  acts : List RadioAct
  events : List Event
  deriving DecidableEq, Repr

namespace Node

variable {buckets records : Nat}

/-- Sends `frames` announcements, of which the first is preceded by `waits` waits, and returns the
acts in order. -/
def burst (clock : SlotClock) (n : Node buckets records) (waits : Nat) :
    (frames : Nat) → List RadioAct × Node buckets records
  | 0 => ([], n)
  | 1 =>
    let (announcement, n) := n.stamp (clock.beforeFrame waits)
    ([.send announcement], n)
  | frames + 2 =>
    let (announcement, n) := n.stamp (clock.beforeFrame waits)
    let (acts, n) := burst clock n (waits + 1) (frames + 1)
    (.send announcement :: .wait :: acts, n)

/-- Does what the slot that has just begun asks of the radio. -/
def perform (clock : SlotClock) (n : Node buckets records) :
    SlotAction → List RadioAct × Node buckets records
  | .idle => ([], n)
  | .transmit frames powerOn keepRadioOn =>
    let (acts, n) := n.burst clock 0 frames
    ((if powerOn then [.switchOn] else []) ++ acts ++ (if keepRadioOn then [] else [.switchOff]), n)

/-- Runs one full slot. -/
def runSlot (n : Node buckets records) (clock : SlotClock) :
    Outcome (Node buckets records) SlotReport :=
  let (action, n) := n.advance
  let (acts, n) := n.perform clock action
  let swept := n.sweepIfCycleComplete (clock.afterBurst (acts.count .wait))
  { state := swept.state
    answer := { acts, events := swept.answer }
    notices := swept.notices }

end Node

end PeerBeacon
