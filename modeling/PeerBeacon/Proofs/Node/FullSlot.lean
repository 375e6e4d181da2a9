import Mathlib.Data.List.Range
import PeerBeacon.Node.Slot
import PeerBeacon.Proofs.Slot.Rendezvous

/-!
# What a full slot comes to

A full slot moves the scheduler on by one step, sends the announcements that the slot asks for,
numbered from the last one on (`Node.sent_runSlot`), and then sweeps if a cycle is complete
(`Node.state_runSlot`).  How the radio is switched around the announcements does not matter for any
of this.
-/

namespace PeerBeacon

/-- The announcement that an act puts on the air, if any. -/
def RadioAct.announcement? : RadioAct → Option Announcement
  | send announcement => some announcement
  | switchOn | switchOff | wait => none

/-- The announcements of a slot, in order. -/
def SlotReport.sent (r : SlotReport) : List Announcement :=
  r.acts.filterMap RadioAct.announcement?

/-- The number of announcements that a slot asks for. -/
def SlotAction.frames : SlotAction → Nat
  | idle => 0
  | transmit frames _ _ => frames

namespace Node

variable {buckets records : Nat}

/-! ## Sending -/

/-- The node after `frames` announcements: nothing but the running number and the count of
announcements has changed. -/
def stamped (n : Node buckets records) (frames : Nat) : Node buckets records :=
  { n with
    scheduler.sequence := n.scheduler.sequence + UInt32.ofNat frames
    counters.sent := n.counters.sent + UInt32.ofNat frames }

/-- The next `frames` announcements of a node; `clock k` is the time of the one that `k` others
precede. -/
def announcements (n : Node buckets records) (clock : Nat → Tick) (frames : Nat) :
    List Announcement :=
  (List.range frames).map fun k =>
    { source := n.id
      sequence := n.scheduler.sequence + UInt32.ofNat (k + 1)
      timestamp := clock k }

theorem add_one_add_ofNat (a : UInt32) (k : Nat) :
    a + 1 + UInt32.ofNat k = a + UInt32.ofNat (k + 1) := by
  rw [UInt32.add_assoc, Nat.add_comm k 1, UInt32.ofNat_add]
  rfl

theorem stamped_zero (n : Node buckets records) : n.stamped 0 = n := by
  simp [stamped]

theorem stamped_stamp (n : Node buckets records) (now : Tick) (frames : Nat) :
    (n.stamp now).2.stamped frames = n.stamped (frames + 1) := by
  simp only [stamped, stamp, Scheduler.stamp, add_one_add_ofNat]

theorem length_announcements (n : Node buckets records) (clock : Nat → Tick) (frames : Nat) :
    (n.announcements clock frames).length = frames := by
  rw [announcements, List.length_map, List.length_range]

theorem source_of_mem_announcements {n : Node buckets records} {clock : Nat → Tick} {frames : Nat}
    {a : Announcement} (h : a ∈ n.announcements clock frames) : a.source = n.id := by
  obtain ⟨k, -, rfl⟩ := List.mem_map.mp h
  rfl

/-- The next announcement, and those that follow it. -/
theorem announcements_succ (n : Node buckets records) (clock : Nat → Tick) (frames : Nat) :
    n.announcements clock (frames + 1) =
      (n.stamp (clock 0)).1 ::
        (n.stamp (clock 0)).2.announcements (fun k => clock (k + 1)) frames := by
  rw [announcements, announcements, List.range_succ_eq_map, List.map_cons, List.map_map]
  refine congrArg₂ List.cons rfl (List.map_congr_left fun k _ => ?_)
  simp only [Function.comp_apply, stamp, Scheduler.stamp, id, add_one_add_ofNat,
    Nat.succ_eq_add_one]

theorem burst_add_two (clock : SlotClock) (n : Node buckets records) (waits frames : Nat) :
    n.burst clock waits (frames + 2) =
      (.send (n.stamp (clock.beforeFrame waits)).1 :: .wait ::
          ((n.stamp (clock.beforeFrame waits)).2.burst clock (waits + 1) (frames + 1)).1,
        ((n.stamp (clock.beforeFrame waits)).2.burst clock (waits + 1) (frames + 1)).2) := rfl

theorem state_burst (clock : SlotClock) :
    ∀ (n : Node buckets records) (waits frames : Nat),
      (n.burst clock waits frames).2 = n.stamped frames
  | n, _, 0 => n.stamped_zero.symm
  | _, _, 1 => rfl
  | n, waits, frames + 2 => by
    rw [burst_add_two, state_burst clock _ (waits + 1) (frames + 1), stamped_stamp]

/-- The announcements of a burst: the next one, and those that one more wait precedes. -/
theorem announcements_beforeFrame_succ (clock : SlotClock) (n : Node buckets records)
    (waits frames : Nat) :
    n.announcements (fun k => clock.beforeFrame (waits + k)) (frames + 1) =
      (n.stamp (clock.beforeFrame waits)).1 ::
        (n.stamp (clock.beforeFrame waits)).2.announcements
          (fun k => clock.beforeFrame (waits + 1 + k)) frames := by
  have hclock : (fun k => clock.beforeFrame (waits + (k + 1))) =
      fun k => clock.beforeFrame (waits + 1 + k) := by
    funext k
    rw [Nat.add_comm k 1, Nat.add_assoc]
  rw [announcements_succ, hclock]
  rfl

/-- A burst sends the next announcements of the node, the time of each read just before it. -/
theorem announcements_burst (clock : SlotClock) :
    ∀ (n : Node buckets records) (waits frames : Nat),
      (n.burst clock waits frames).1.filterMap RadioAct.announcement? =
        n.announcements (fun k => clock.beforeFrame (waits + k)) frames
  | _, _, 0 => rfl
  | n, waits, 1 => by
    rw [announcements_beforeFrame_succ]
    rfl
  | n, waits, frames + 2 => by
    rw [burst_add_two, announcements_beforeFrame_succ]
    refine congrArg₂ List.cons rfl ?_
    exact announcements_burst clock _ (waits + 1) (frames + 1)

/-- A burst waits between two of its announcements. -/
theorem count_wait_burst (clock : SlotClock) :
    ∀ (n : Node buckets records) (waits frames : Nat),
      (n.burst clock waits frames).1.count .wait = frames - 1
  | _, _, 0 => rfl
  | _, _, 1 => rfl
  | n, waits, frames + 2 => by
    have hrest := count_wait_burst clock (n.stamp (clock.beforeFrame waits)).2 (waits + 1)
      (frames + 1)
    rw [burst_add_two, List.count_cons_of_ne RadioAct.noConfusion, List.count_cons_self, hrest]
    rfl

theorem perform_transmit (clock : SlotClock) (n : Node buckets records) (frames : Nat)
    (powerOn keepRadioOn : Bool) :
    n.perform clock (.transmit frames powerOn keepRadioOn) =
      ((if powerOn then [.switchOn] else []) ++ (n.burst clock 0 frames).1 ++
          (if keepRadioOn then [] else [.switchOff]),
        (n.burst clock 0 frames).2) := rfl

/-- Doing what a slot asks for changes no more than its burst does. -/
theorem state_perform (clock : SlotClock) (n : Node buckets records) (action : SlotAction) :
    (n.perform clock action).2 = n.stamped action.frames := by
  cases action with
  | idle => exact n.stamped_zero.symm
  | transmit frames powerOn keepRadioOn => exact state_burst clock n 0 frames

theorem count_wait_perform (clock : SlotClock) (n : Node buckets records) (action : SlotAction) :
    (n.perform clock action).1.count .wait = action.frames - 1 := by
  cases action with
  | idle => rfl
  | transmit frames powerOn keepRadioOn =>
    rw [SlotAction.frames, ← count_wait_burst clock n 0 frames]
    cases powerOn <;> cases keepRadioOn <;> simp [perform]

theorem announcements_perform (clock : SlotClock) (n : Node buckets records)
    (action : SlotAction) :
    (n.perform clock action).1.filterMap RadioAct.announcement? =
      n.announcements clock.beforeFrame action.frames := by
  cases action with
  | idle => rfl
  | transmit frames powerOn keepRadioOn =>
    have hburst := announcements_burst clock n 0 frames
    simp only [Nat.zero_add] at hburst
    rw [SlotAction.frames, ← hburst]
    cases powerOn <;> cases keepRadioOn <;>
      simp [perform, RadioAct.announcement?, List.filterMap_cons]

/-! ## The slot as a whole -/

/-- A full slot sends the announcements that it asks for. -/
theorem sent_runSlot (n : Node buckets records) (clock : SlotClock) :
    (n.runSlot clock).answer.sent =
      n.announcements clock.beforeFrame n.scheduler.action.frames :=
  announcements_perform clock n.advance.2 n.scheduler.action

/-- A full slot leaves the node that has moved on and sent its announcements, after a sweep if a
cycle is complete; the clock is read for it after all waits between announcements. -/
theorem state_runSlot (n : Node buckets records) (clock : SlotClock) :
    (n.runSlot clock).state =
      ((n.advance.2.stamped n.scheduler.action.frames).sweepIfCycleComplete
        (clock.afterBurst (n.scheduler.action.frames - 1))).state := by
  rw [← state_perform clock, ← count_wait_perform clock n.advance.2]
  rfl

theorem events_runSlot (n : Node buckets records) (clock : SlotClock) :
    (n.runSlot clock).answer.events =
      ((n.advance.2.stamped n.scheduler.action.frames).sweepIfCycleComplete
        (clock.afterBurst (n.scheduler.action.frames - 1))).answer := by
  rw [← state_perform clock, ← count_wait_perform clock n.advance.2]
  rfl

/-- A sweep that waits for a completed cycle leaves the scheduler alone. -/
theorem scheduler_sweepIfCycleComplete (n : Node buckets records) (now : Tick) :
    (n.sweepIfCycleComplete now).state.scheduler = n.scheduler := by
  rw [sweepIfCycleComplete]
  split <;> rfl

/-- So does a slot that passes while the schedule is stopped. -/
theorem scheduler_idle (n : Node buckets records) (now : Tick) :
    (n.idle now).state.scheduler = n.scheduler := by
  rw [idle]
  split <;> rfl

/-- A sweep that waits for a completed cycle sweeps the tracker or leaves it alone. -/
theorem sweepIfCycleComplete_cases (n : Node buckets records) (now : Tick) :
    ((n.sweepIfCycleComplete now).state.tracker = n.tracker ∧
        (n.sweepIfCycleComplete now).answer = []) ∨
      ((n.sweepIfCycleComplete now).state.tracker = (n.tracker.sweep now).state ∧
        (n.sweepIfCycleComplete now).answer = (n.tracker.sweep now).answer) := by
  rw [sweepIfCycleComplete]
  split
  · exact .inl ⟨rfl, rfl⟩
  · exact .inr ⟨rfl, rfl⟩

/-- A full slot sweeps the tracker at its end or leaves it alone. -/
theorem runSlot_cases (n : Node buckets records) (clock : SlotClock) :
    ((n.runSlot clock).state.tracker = n.tracker ∧ (n.runSlot clock).answer.events = []) ∨
      ((n.runSlot clock).state.tracker =
          (n.tracker.sweep (clock.afterBurst (n.scheduler.action.frames - 1))).state ∧
        (n.runSlot clock).answer.events =
          (n.tracker.sweep (clock.afterBurst (n.scheduler.action.frames - 1))).answer) := by
  rw [state_runSlot, events_runSlot]
  exact sweepIfCycleComplete_cases (n.advance.2.stamped n.scheduler.action.frames) _

/-- A full slot moves the scheduler on by one step and as many announcements as it sends. -/
theorem scheduler_runSlot (n : Node buckets records) (clock : SlotClock) :
    (n.runSlot clock).state.scheduler =
      (n.advance.2.stamped n.scheduler.action.frames).scheduler := by
  rw [state_runSlot, scheduler_sweepIfCycleComplete]

/-- A node that is `k` slots into a schedule is `k + 1` slots into it after a full slot. -/
theorem scheduler_runSlot_after {n : Node buckets records} {s : Scheduler} {k : Nat}
    (h : ∃ sequence, n.scheduler = { s.after k with sequence }) (clock : SlotClock) :
    ∃ sequence, (n.runSlot clock).state.scheduler = { s.after (k + 1) with sequence } := by
  obtain ⟨sequence, hscheduler⟩ := h
  refine ⟨sequence + UInt32.ofNat n.scheduler.action.frames, ?_⟩
  rw [scheduler_runSlot, Scheduler.after_succ]
  simp only [stamped, advance, hscheduler]
  rfl

end Node

end PeerBeacon
