import PeerBeacon.Proofs.Node.Rollover

/-!
# One sweep per cycle

A node finds out that a cycle is complete by comparing two counts, the completed cycles of its
scheduler and those that it has swept for.  Both are kept modulo `2 ^ 32`, so equal counts need not
mean equal numbers of cycles; but the node compares them at the end of every slot, and then the one
is never more than one cycle ahead of the other (`Node.Paced.sweptCycles_eq`).

Hence the slots that sweep are those that complete a cycle, whatever else the node is asked to do
in between, for cycles of any length and however often the counts have rolled over
(`Node.run_punctual`).  Only a host that begins slots by itself (`Node.advance`) has to look for
completed cycles by itself, too.
-/

namespace PeerBeacon

namespace Scheduler

variable {s : Scheduler} {k : Nat}

/-- A slot completes a cycle if the next one is at its start. -/
theorem nextSlot_eq_zero_iff (h : s.slot = k % s.scheme.cycleLength) :
    s.nextSlot = 0 ↔ s.scheme.cycleLength ∣ k + 1 := by
  rw [nextSlot, h, Nat.mod_add_mod, Nat.dvd_iff_mod_eq_zero]

/-- The count of completed cycles moves on in the slot that completes one. -/
theorem cycles_step (h : s.slot = k % s.scheme.cycleLength) :
    s.step.cycles = if s.scheme.cycleLength ∣ k + 1 then s.cycles + 1 else s.cycles :=
  if_congr (nextSlot_eq_zero_iff h) rfl rfl

/-- A scheduler counts the cycles that its slots complete. -/
theorem cycles_step_eq (h : s.slot = k % s.scheme.cycleLength)
    (hcycles : s.cycles = UInt32.ofNat (k / s.scheme.cycleLength)) :
    s.step.cycles = UInt32.ofNat ((k + 1) / s.scheme.cycleLength) := by
  rw [cycles_step h, hcycles, Nat.succ_div]
  split
  · rw [UInt32.ofNat_add]
    rfl
  · rw [Nat.add_zero]

end Scheduler

namespace Node

variable {buckets records : Nat} {n : Node buckets records} {scheme : SlotScheme} {k : Nat}

/-! ## The end of a slot -/

theorem sweepIfCycleComplete_of_eq (h : n.scheduler.cycles = n.sweptCycles) (now : Tick) :
    n.sweepIfCycleComplete now = { state := n, answer := [] } := by
  rw [sweepIfCycleComplete, if_pos h]

theorem sweepIfCycleComplete_of_ne (h : n.scheduler.cycles ≠ n.sweptCycles) (now : Tick) :
    n.sweepIfCycleComplete now = { n with sweptCycles := n.scheduler.cycles }.sweep now := by
  rw [sweepIfCycleComplete, if_neg h]

/-- Afterwards the node has swept for all cycles that are complete. -/
theorem sweptCycles_sweepIfCycleComplete (n : Node buckets records) (now : Tick) :
    (n.sweepIfCycleComplete now).state.sweptCycles = n.scheduler.cycles := by
  by_cases h : n.scheduler.cycles = n.sweptCycles
  · rw [sweepIfCycleComplete_of_eq h, h]
  · rw [sweepIfCycleComplete_of_ne h]
    rfl

/-- The reading of the clock at the end of the next full slot, after all its waits. -/
def slotEnd (n : Node buckets records) (clock : SlotClock) : Tick :=
  clock.afterBurst ((n.runSlot clock).answer.acts.count .wait)

/-- A full slot sends its announcements and then looks whether a cycle is complete. -/
theorem runSlot_eq (n : Node buckets records) (clock : SlotClock) :
    n.runSlot clock =
      let swept := (n.advance.2.stamped n.scheduler.action.frames).sweepIfCycleComplete
        (n.slotEnd clock)
      { state := swept.state
        answer := { acts := (n.runSlot clock).answer.acts, events := swept.answer }
        notices := swept.notices } := by
  rw [← state_perform clock]
  rfl

/-- The next full slot sweeps the peers once, at its end, and does nothing else to them. -/
structure SweepsOnce (n : Node buckets records) (clock : SlotClock) : Prop where
  tracker_eq : (n.runSlot clock).state.tracker = (n.tracker.sweep (n.slotEnd clock)).state
  events_eq : (n.runSlot clock).answer.events = (n.tracker.sweep (n.slotEnd clock)).answer
  notices_eq : (n.runSlot clock).notices = (n.tracker.sweep (n.slotEnd clock)).notices

/-- The next full slot does nothing to the peers. -/
structure LeavesPeers (n : Node buckets records) (clock : SlotClock) : Prop where
  tracker_eq : (n.runSlot clock).state.tracker = n.tracker
  events_eq : (n.runSlot clock).answer.events = []
  notices_eq : (n.runSlot clock).notices = []

/-- A slot after which the count of completed cycles is that of the last sweep does not sweep. -/
theorem leavesPeers_of_eq (h : n.scheduler.step.cycles = n.sweptCycles) (clock : SlotClock) :
    n.LeavesPeers clock := by
  have hslot := n.runSlot_eq clock
  rw [sweepIfCycleComplete_of_eq (n := n.advance.2.stamped n.scheduler.action.frames) h] at hslot
  exact ⟨congrArg (·.state.tracker) hslot, congrArg (·.answer.events) hslot,
    congrArg (·.notices) hslot⟩

/-- Any other slot sweeps. -/
theorem sweepsOnce_of_ne (h : n.scheduler.step.cycles ≠ n.sweptCycles) (clock : SlotClock) :
    n.SweepsOnce clock := by
  have hslot := n.runSlot_eq clock
  rw [sweepIfCycleComplete_of_ne (n := n.advance.2.stamped n.scheduler.action.frames) h] at hslot
  exact ⟨congrArg (·.state.tracker) hslot, congrArg (·.answer.events) hslot,
    congrArg (·.notices) hslot⟩

/-! ## Runs -/

/-- The call runs a full slot. -/
def Call.isSlot : Call → Bool
  | runSlot _ => true
  | receive _ | advance | stamp _ | sweepIfCycleComplete _ | sweep _ | idle _ | stop
  | setMinRssi _ => false

/-- The node has run `k` full slots of a scheme, and has swept for every cycle that they have
completed. -/
structure Paced (n : Node buckets records) (scheme : SlotScheme) (k : Nat) : Prop where
  scheme_eq : n.scheduler.scheme = scheme
  slot_eq : n.scheduler.slot = k % scheme.cycleLength
  cycles_eq : n.scheduler.cycles = UInt32.ofNat (k / scheme.cycleLength)
  sweptCycles_eq : n.sweptCycles = n.scheduler.cycles

namespace Paced

theorem start (buckets records : Nat) (id : NodeId) (settings : Settings) :
    (Node.start buckets records id settings).Paced settings.schedule.scheme 0 where
  scheme_eq := rfl
  slot_eq := (Nat.zero_mod _).symm
  cycles_eq := by
    rw [Nat.zero_div]
    rfl
  sweptCycles_eq := rfl

/-- Calls that leave the schedule alone do not matter. -/
theorem of_eq {m : Node buckets records} (h : n.Paced scheme k)
    (scheme_eq : m.scheduler.scheme = n.scheduler.scheme)
    (slot_eq : m.scheduler.slot = n.scheduler.slot)
    (cycles_eq : m.scheduler.cycles = n.scheduler.cycles)
    (sweptCycles_eq : m.sweptCycles = n.sweptCycles) : m.Paced scheme k where
  scheme_eq := scheme_eq.trans h.scheme_eq
  slot_eq := slot_eq.trans h.slot_eq
  cycles_eq := cycles_eq.trans h.cycles_eq
  sweptCycles_eq := by rw [sweptCycles_eq, h.sweptCycles_eq, cycles_eq]

/-- The count of completed cycles leaves that of the last sweep if the next slot completes one. -/
theorem cycles_step_eq_iff (h : n.Paced scheme k) :
    n.scheduler.step.cycles = n.sweptCycles ↔ ¬scheme.cycleLength ∣ k + 1 := by
  have hslot : n.scheduler.slot = k % n.scheduler.scheme.cycleLength := h.scheme_eq ▸ h.slot_eq
  have hstep := Scheduler.cycles_step hslot
  rw [h.scheme_eq] at hstep
  rw [hstep, h.sweptCycles_eq]
  split <;> simp [*]

/-- A full slot more. -/
theorem runSlot (h : n.Paced scheme k) (clock : SlotClock) :
    (n.runSlot clock).state.Paced scheme (k + 1) := by
  obtain ⟨hscheme, hslot, hcycles, -⟩ := h
  subst hscheme
  have hscheduler := n.scheduler_runSlot clock
  refine ⟨?_, ?_, ?_, ?_⟩
  · rw [hscheduler]
    rfl
  · rw [hscheduler]
    exact (congrArg (fun x => (x + 1) % _) hslot).trans (Nat.mod_add_mod _ _ _)
  · rw [hscheduler]
    exact Scheduler.cycles_step_eq hslot hcycles
  · rw [hscheduler, state_runSlot, sweptCycles_sweepIfCycleComplete]

/-- Of all calls but one that begins a slot by itself, only full slots matter. -/
theorem call (h : n.Paced scheme k) {c : Call} (hc : c ≠ .advance) :
    (n.call c).1.Paced scheme (k + if c.isSlot then 1 else 0) := by
  cases c with
  | receive r =>
    have hscheduler := n.scheduler_receive r
    refine h.of_eq (congrArg _ hscheduler) (congrArg _ hscheduler) (congrArg _ hscheduler) ?_
    unfold Node.call Node.receive
    dsimp only
    split <;> try split
    all_goals rfl
  | runSlot clock => exact h.runSlot clock
  | advance => exact absurd rfl hc
  | stamp now => exact h.of_eq rfl rfl rfl rfl
  | sweepIfCycleComplete now =>
    have hnothing : (n.call (.sweepIfCycleComplete now)).1 = n := by
      rw [Node.call, sweepIfCycleComplete_of_eq h.sweptCycles_eq.symm]
    rw [hnothing]
    exact h
  | sweep now => exact h.of_eq rfl rfl rfl rfl
  | idle now =>
    have hscheduler := n.scheduler_idle now
    refine h.of_eq (congrArg _ hscheduler) (congrArg _ hscheduler) (congrArg _ hscheduler) ?_
    rw [Node.call, Node.idle]
    split <;> rfl
  | stop => exact h.of_eq rfl rfl rfl rfl
  | setMinRssi minRssi => exact h.of_eq rfl rfl rfl rfl

theorem run (calls : List Call) :
    ∀ {n : Node buckets records} {k : Nat}, n.Paced scheme k → .advance ∉ calls →
      (n.run calls).1.Paced scheme (k + calls.countP Call.isSlot) := by
  induction calls with
  | nil => exact fun h _ => h
  | cons c calls ih =>
    intro n k h hcalls
    rw [List.mem_cons, not_or] at hcalls
    have hrest := ih (h.call (Ne.symm hcalls.1)) hcalls.2
    rw [List.countP_cons, Nat.add_comm (calls.countP Call.isSlot), ← Nat.add_assoc]
    exact hrest

end Paced

/-- What holds of a node after `k` full slots of a scheme, of which the next one is run at the
readings of a clock. -/
structure Punctual (n : Node buckets records) (scheme : SlotScheme) (k : Nat)
    (clock : SlotClock) : Prop where
  slot_eq : n.scheduler.slot = k % scheme.cycleLength
  toNat_cycles_eq : n.scheduler.cycles.toNat = k / scheme.cycleLength % 2 ^ 32
  /-- Neither the length of the cycle nor the step to the next slot takes more than 32 bits. -/
  fits : scheme.cycleLength < 2 ^ 32 ∧ n.scheduler.slot + 1 < 2 ^ 32
  /-- The slot that completes a cycle sweeps. -/
  sweepsOnce : scheme.cycleLength ∣ k + 1 → n.SweepsOnce clock
  /-- No other slot does. -/
  leavesPeers : ¬scheme.cycleLength ∣ k + 1 → n.LeavesPeers clock

theorem Paced.punctual (h : n.Paced scheme k) (clock : SlotClock) :
    n.Punctual scheme k clock where
  slot_eq := h.slot_eq
  toNat_cycles_eq := by rw [h.cycles_eq, UInt32.toNat_ofNat']
  fits := by
    have hlt : n.scheduler.slot < scheme.cycleLength :=
      h.slot_eq ▸ Nat.mod_lt k scheme.cycleLength_pos
    exact ⟨scheme.cycleLength_lt, Nat.lt_of_le_of_lt hlt scheme.cycleLength_lt⟩
  sweepsOnce hcomplete := sweepsOnce_of_ne (fun heq => h.cycles_step_eq_iff.mp heq hcomplete) clock
  leavesPeers hcomplete := leavesPeers_of_eq (h.cycles_step_eq_iff.mpr hcomplete) clock

/-- **One sweep per cycle.**  From a node that has just been switched on, with any settings and
after any calls that do not begin slots by themselves, the scheduler is at the slot, and has counted
the cycles, that the number of full slots so far says, within the range of 32 bits.  The next full
slot sweeps the peers once, after its burst, if it completes a cycle, and leaves them alone
otherwise. -/
theorem run_punctual (buckets records : Nat) (id : NodeId) (settings : Settings)
    {calls : List Call} (h : .advance ∉ calls) (clock : SlotClock) :
    ((start buckets records id settings).run calls).1.Punctual settings.schedule.scheme
      (calls.countP Call.isSlot) clock := by
  have hpaced := (Paced.start buckets records id settings).run calls h
  rw [Nat.zero_add] at hpaced
  exact hpaced.punctual clock

/-- Three slots of a cycle of four, with all that may come in between. -/
def threeSlots : List Call :=
  [.runSlot (.steady 0), .receive ⟨⟨7, 1, 0⟩, -50, 0⟩, .stamp 0, .runSlot (.steady 1), .stop,
    .idle 1, .runSlot (.steady 2), .sweep 2, .setMinRssi (-60)]

/-- The slot after them completes the cycle. -/
theorem run_punctual_threeSlots :
    .advance ∉ threeSlots ∧
      ((start 4 2 1 { schedule := { scheme := .grid 2 0 1 } }).run threeSlots).1.Punctual
        (.grid 2 0 1) 3 (.steady 3) :=
  have h : .advance ∉ threeSlots := by simp [threeSlots]
  ⟨h, run_punctual 4 2 1 { schedule := { scheme := .grid 2 0 1 } } h (.steady 3)⟩

-- the sweep of that slot finds that the peer has faded
example : (((start 4 2 1 { schedule := { scheme := .grid 2 0 1 } }).run threeSlots).1.runSlot
    (.steady 3)).notices = [.faded 7] := by
  decide

end Node

end PeerBeacon
