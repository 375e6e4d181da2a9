import PeerBeacon.Announcement
import PeerBeacon.Settings.Basic

/-!
# The slot scheduler

The scheduler walks a node through the slots of its scheme.  Beginning a slot tells the node what to
do with its radio (`Scheduler.advance`); in an active slot the node then takes its announcements
from `Scheduler.stamp`, one before each sending.

When two active slots follow each other the radio stays on between them.  The scheduler remembers
this in `radioHeld`, so that the second slot does not switch the radio on again; a node that
switches its radio off outside the schedule has to say so with `Scheduler.releaseRadio`.
-/

namespace PeerBeacon

/-- What a node does with its radio in the slot that has just begun. -/
inductive SlotAction where
  /-- The radio stays off. -/
  | idle
  /-- The node sends `frames` announcements one slot length apart, after switching the radio on if
  `powerOn`, and switches it off afterwards unless `keepRadioOn`. -/
  | transmit (frames : Nat) (powerOn keepRadioOn : Bool)
  deriving DecidableEq, Repr

/-- Whether the slot is an active one. -/
def SlotAction.isActive : SlotAction → Bool
  | idle => false
  | transmit .. => true

/-- The place of a node in its schedule. -/
structure Scheduler where
  nodeId : NodeId
  scheme : SlotScheme
  /-- The number of announcements sent in an active slot. -/
  burst : UInt8
  /-- The position in the cycle of the slot that begins next. -/
  slot : Nat := 0
  /-- Completed cycles, modulo `2 ^ 32`. -/
  cycles : UInt32 := 0
  /-- The running number of the last announcement, modulo `2 ^ 32`. -/
  sequence : UInt32 := 0
  /-- The radio was left on by the last slot. -/
  radioHeld : Bool := false
  deriving DecidableEq, Repr

namespace Scheduler

/-- A node at the first slot of its schedule. -/
def start (nodeId : NodeId) (schedule : Schedule) : Scheduler where
  nodeId := nodeId
  scheme := schedule.scheme
  burst := schedule.burst

/-- The position of the slot after the one that begins next. -/
def nextSlot (s : Scheduler) : Nat :=
  (s.slot + 1) % s.scheme.cycleLength

/-- What the slot that begins next asks of the radio. -/
def action (s : Scheduler) : SlotAction :=
  if s.scheme.isActive s.slot then
    .transmit s.burst.toNat (!s.radioHeld) (s.scheme.isActive s.nextSlot)
  else
    .idle

/-- Moves past the slot that begins next. -/
def step (s : Scheduler) : Scheduler :=
  { s with
    slot := s.nextSlot
    cycles := if s.nextSlot = 0 then s.cycles + 1 else s.cycles
    radioHeld := s.scheme.isActive s.slot && s.scheme.isActive s.nextSlot }

/-- Begins the next slot. -/
def advance (s : Scheduler) : SlotAction × Scheduler :=
  (s.action, s.step)

/-- The next announcement, sent at `now`. -/
def stamp (s : Scheduler) (now : Tick) : Announcement × Scheduler :=
  let sequence := s.sequence + 1
  ({ source := s.nodeId, sequence, timestamp := now }, { s with sequence })

/-- Takes note that the radio was switched off outside the schedule. -/
def releaseRadio (s : Scheduler) : Scheduler :=
  { s with radioHeld := false }

@[simp] theorem scheme_step (s : Scheduler) : s.step.scheme = s.scheme := rfl

@[simp] theorem slot_step (s : Scheduler) : s.step.slot = s.nextSlot := rfl

@[simp] theorem sequence_step (s : Scheduler) : s.step.sequence = s.sequence := rfl

theorem nextSlot_lt (s : Scheduler) : s.nextSlot < s.scheme.cycleLength :=
  Nat.mod_lt _ s.scheme.cycleLength_pos

/-- The radio is held exactly between two active slots. -/
theorem radioHeld_step (s : Scheduler) :
    s.step.radioHeld = (s.scheme.isActive s.slot && s.scheme.isActive s.step.slot) := rfl

theorem isActive_action (s : Scheduler) : s.action.isActive = s.scheme.isActive s.slot := by
  unfold action
  split <;> simp [SlotAction.isActive, *]

end Scheduler

end PeerBeacon
