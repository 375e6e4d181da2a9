import PeerBeacon.Proofs.Node.FullSlot
import PeerBeacon.Proofs.Seconds
import PeerBeacon.Proofs.Slot.Rendezvous
import PeerBeacon.Proofs.Tracker.Holds

/-!
# Two nodes within reach of each other

Of two nodes that begin their slots together, one speaks and the other listens.  What the speaker
sends reaches the listener if the slot is active for both, and nothing else does
(`Encounter.slot`).  Neither node knows where the other one is in its schedule.

The schedule of each node goes on as if the other one were not there, so the slots that are active
for both can be told from the two schedules alone (`Encounter.isShared_run`).
-/

namespace PeerBeacon

/-! ## Nodes that know nobody -/

/-- A node with the given settings that knows nobody.  It may be anywhere in its schedule. -/
structure Node.Newcomer {buckets records : Nat} (n : Node buckets records)
    (settings : Settings) : Prop where
  scheme_eq : n.scheduler.scheme = settings.schedule.scheme
  burst_eq : n.scheduler.burst = settings.schedule.burst
  thresholds_eq : n.tracker.thresholds = settings.thresholds
  holds : n.tracker.roster.Holds .empty

namespace Node

variable {buckets records : Nat} {n : Node buckets records} {settings : Settings}

/-- A node that has just been switched on knows nobody. -/
theorem newcomer_start (buckets records : Nat) (id : NodeId) (settings : Settings) :
    (start buckets records id settings).Newcomer settings where
  scheme_eq := rfl
  burst_eq := rfl
  thresholds_eq := rfl
  holds := Roster.Holds.empty buckets records

namespace Newcomer

/-- Slots that pass make no acquaintances. -/
theorem advance (h : n.Newcomer settings) : n.advance.2.Newcomer settings where
  scheme_eq := h.scheme_eq
  burst_eq := h.burst_eq
  thresholds_eq := h.thresholds_eq
  holds := h.holds

/-- Nor do slots that are run in full. -/
theorem runSlot (h : n.Newcomer settings) (clock : SlotClock) :
    (n.runSlot clock).state.Newcomer settings := by
  have hscheduler := n.scheduler_runSlot clock
  have htracker : (n.runSlot clock).state.tracker.thresholds = n.tracker.thresholds ∧
      (n.runSlot clock).state.tracker.roster.Holds .empty := by
    rcases n.runSlot_cases clock with ⟨heq, -⟩ | ⟨heq, -⟩
    · rw [heq]
      exact ⟨rfl, h.holds⟩
    · rw [heq]
      exact ⟨rfl, (Tracker.sweep_holds h.holds _).1⟩
  refine ⟨?_, ?_, htracker.1.trans h.thresholds_eq, htracker.2⟩
  · rw [hscheduler]
    exact h.scheme_eq
  · rw [hscheduler]
    exact h.burst_eq

end Newcomer

/-! ## Receptions one after the other -/

/-- Takes receptions in one after the other and collects the events. -/
def receiveAll (n : Node buckets records) : List Reception → Node buckets records × List Event
  | [] => (n, [])
  | r :: rs =>
    let outcome := n.receive r
    let (m, events) := receiveAll outcome.state rs
    (m, outcome.answer.toList ++ events)

theorem scheduler_receiveAll (rs : List Reception) :
    ∀ n : Node buckets records, (n.receiveAll rs).1.scheduler = n.scheduler := by
  induction rs with
  | nil => exact fun n => rfl
  | cons r rs ih => exact fun n => (ih (n.receive r).state).trans (scheduler_receive n r)

end Node

/-! ## Encounters -/

/-- Two nodes that begin their slots together. -/
structure Encounter (buckets records buckets' records' : Nat) where
  /-- The node that is to be heard. -/
  speaker : Node buckets records
  /-- The node that is to hear it. -/
  listener : Node buckets' records'

namespace Encounter

variable {buckets records buckets' records' : Nat}

/-- The slot that begins next is active for both nodes. -/
def isShared (e : Encounter buckets records buckets' records') : Bool :=
  e.speaker.advance.1.isActive && e.listener.advance.1.isActive

/-- What the listener receives at `now` of the announcements of a slot; `rssi i` is the strength of
the one that `i` others precede. -/
def receptions (now : Tick) (rssi : Nat → Int16) (sent : List Announcement) : List Reception :=
  sent.mapIdx fun i announcement => { announcement, rssi := rssi i, heard := now }

/-- Both nodes run one full slot at `now`, and then, if the slot is active for both, the listener
receives what the speaker has sent.  The events are those of the listener. -/
def slot (e : Encounter buckets records buckets' records') (now : Tick) (rssi : Nat → Int16) :
    Encounter buckets records buckets' records' × List Event :=
  let spoken := e.speaker.runSlot (.steady now)
  let listened := e.listener.runSlot (.steady now)
  let sent := if e.isShared then spoken.answer.sent else []
  let (listener, events) := listened.state.receiveAll (receptions now rssi sent)
  ({ speaker := spoken.state, listener }, listened.answer.events ++ events)

/-- In a slot that is not shared the nodes run by themselves. -/
theorem slot_of_not_shared {e : Encounter buckets records buckets' records'}
    (h : e.isShared = false) (now : Tick) (rssi : Nat → Int16) :
    e.slot now rssi =
      ({ speaker := (e.speaker.runSlot (.steady now)).state
         listener := (e.listener.runSlot (.steady now)).state },
        (e.listener.runSlot (.steady now)).answer.events) := by
  simp [slot, h, receptions, Node.receiveAll]

/-- In a shared slot the listener receives all that the speaker sends. -/
theorem slot_of_shared {e : Encounter buckets records buckets' records'}
    (h : e.isShared = true) (now : Tick) (rssi : Nat → Int16) :
    e.slot now rssi =
      let heard := (e.listener.runSlot (.steady now)).state.receiveAll
        (receptions now rssi (e.speaker.runSlot (.steady now)).answer.sent)
      ({ speaker := (e.speaker.runSlot (.steady now)).state
         listener := heard.1 },
        (e.listener.runSlot (.steady now)).answer.events ++ heard.2) := by
  rw [slot, h]
  rfl

/-- The first `n` slots of `micros` microseconds, the clock counted from zero; `rssi j` gives the
strengths in slot `j`. -/
def run (micros : Nat) (rssi : Nat → Nat → Int16)
    (e : Encounter buckets records buckets' records') :
    (n : Nat) → Encounter buckets records buckets' records' × List Event
  | 0 => (e, [])
  | n + 1 =>
    let (before, events) := e.run micros rssi n
    let (after, new) := before.slot (slotTick micros n) (rssi n)
    (after, events ++ new)

variable (micros : Nat) (rssi : Nat → Nat → Int16)
  (e : Encounter buckets records buckets' records') (n : Nat)

theorem run_succ :
    e.run micros rssi (n + 1) =
      (((e.run micros rssi n).1.slot (slotTick micros n) (rssi n)).1,
        (e.run micros rssi n).2 ++
          ((e.run micros rssi n).1.slot (slotTick micros n) (rssi n)).2) := rfl

/-- The speaker follows its schedule; only its announcements are counted besides. -/
theorem scheduler_speaker_run :
    ∃ sequence, (e.run micros rssi n).1.speaker.scheduler =
      { e.speaker.scheduler.after n with sequence } := by
  induction n with
  | zero => exact ⟨_, rfl⟩
  | succ n ih => exact Node.scheduler_runSlot_after ih _

/-- The listener follows its schedule; only its announcements are counted besides. -/
theorem scheduler_listener_run :
    ∃ sequence, (e.run micros rssi n).1.listener.scheduler =
      { e.listener.scheduler.after n with sequence } := by
  induction n with
  | zero => exact ⟨_, rfl⟩
  | succ n ih =>
    obtain ⟨sequence, hlistened⟩ := Node.scheduler_runSlot_after ih (.steady (slotTick micros n))
    exact ⟨sequence, (Node.scheduler_receiveAll _ _).trans hlistened⟩

/-- Whether a slot is shared can be told from the two schedules. -/
theorem isShared_run :
    (e.run micros rssi n).1.isShared =
      (e.speaker.scheduler.scheme.isActive (e.speaker.scheduler.slot + n) &&
        e.listener.scheduler.scheme.isActive (e.listener.scheduler.slot + n)) := by
  obtain ⟨_, hspeaker⟩ := e.scheduler_speaker_run micros rssi n
  obtain ⟨_, hlistener⟩ := e.scheduler_listener_run micros rssi n
  rw [← Scheduler.isActive_action_after, ← Scheduler.isActive_action_after, isShared, Node.advance,
    Node.advance, hspeaker, hlistener]
  rfl

end Encounter

end PeerBeacon
