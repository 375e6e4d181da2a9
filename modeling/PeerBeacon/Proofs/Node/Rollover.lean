import PeerBeacon.Proofs.Node.FullSlot
import PeerBeacon.Proofs.Tracker.Shift

/-!
# The clock rolls over unseen

The clock of a node counts seconds modulo `2 ^ 32`, from a start that means nothing, so it may roll
over at any time.  A run of a node whose clock is ahead by a constant is the same run, with all
readings ahead by that constant: the node acts in the same way, sends the same announcements but for
their timestamps, reports the same events but for the readings in them, and ends up in the same
state but for the readings in its records (`Node.run_shift`).

No reading is special.  Only spans of time matter, and the one comparison of readings, in
`Node.idle`, is for equality.
-/

namespace PeerBeacon

/-! ## Rolling readings on -/

/-- The announcement with its timestamp rolled on. -/
def Announcement.shift (c : Tick) (a : Announcement) : Announcement :=
  { a with timestamp := a.timestamp + c }

/-- The reception at a reading that is rolled on.  What the sender wrote stays as it is. -/
def Reception.shift (c : Tick) (r : Reception) : Reception :=
  { r with heard := r.heard + c }

/-- The clock ahead by `c`. -/
def SlotClock.shift (c : Tick) (clock : SlotClock) : SlotClock where
  beforeFrame waits := clock.beforeFrame waits + c
  afterBurst waits := clock.afterBurst waits + c

/-- The act with the timestamp in it rolled on. -/
def RadioAct.shift (c : Tick) : RadioAct → RadioAct
  | switchOn => switchOn
  | switchOff => switchOff
  | send announcement => send (announcement.shift c)
  | wait => wait

/-- The report with all readings in it rolled on. -/
def SlotReport.shift (c : Tick) (r : SlotReport) : SlotReport where
  acts := r.acts.map (RadioAct.shift c)
  events := r.events.map (Event.shift c)

theorem RadioAct.count_wait_shift (c : Tick) (acts : List RadioAct) :
    (acts.map (shift c)).count wait = acts.count wait := by
  have hwait : ∀ a : RadioAct, (a.shift c == wait) = (a == wait) := by
    intro a
    cases a <;> rfl
  rw [List.count_eq_countP, List.countP_map, List.count_eq_countP]
  exact congrArg (fun p => List.countP p acts) (funext hwait)

/-- Events are counted by their kind. -/
theorem Counters.countAll_shift (c : Tick) (counters : Counters) (events : List Event) :
    counters.countAll (events.map (Event.shift c)) = counters.countAll events := by
  have hcount : ∀ (counters : Counters) (e : Event),
      counters.count (e.shift c) = counters.count e := by
    intro counters e
    cases e <;> rfl
  rw [countAll, List.foldl_map]
  simp only [hcount]
  rfl

namespace Node

variable {buckets records : Nat}

/-! ## Calls -/

/-- A call to a node. -/
inductive Call where
  /-- An announcement is received. -/
  | receive (r : Reception)
  /-- A full slot is run. -/
  | runSlot (clock : SlotClock)
  /-- A slot begins. -/
  | advance
  /-- An announcement is asked for. -/
  | stamp (now : Tick)
  /-- Peers are aged if a cycle was completed. -/
  | sweepIfCycleComplete (now : Tick)
  /-- Peers are aged. -/
  | sweep (now : Tick)
  /-- A slot passes while the schedule is stopped. -/
  | idle (now : Tick)
  /-- The schedule is stopped. -/
  | stop
  /-- The signal threshold is moved. -/
  | setMinRssi (minRssi : Int16)

/-- What a call to a node returns. -/
inductive Reply where
  | done
  | action (a : SlotAction)
  | announcement (a : Announcement)
  | events (es : List Event)
  | report (r : SlotReport)
  deriving DecidableEq, Repr

/-- Makes a call. -/
def call (n : Node buckets records) : Call → Node buckets records × Reply
  | .receive r =>
    let outcome := n.receive r
    (outcome.state, .events outcome.answer.toList)
  | .runSlot clock =>
    let outcome := n.runSlot clock
    (outcome.state, .report outcome.answer)
  | .advance =>
    let (action, m) := n.advance
    (m, .action action)
  | .stamp now =>
    let (announcement, m) := n.stamp now
    (m, .announcement announcement)
  | .sweepIfCycleComplete now =>
    let outcome := n.sweepIfCycleComplete now
    (outcome.state, .events outcome.answer)
  | .sweep now =>
    let outcome := n.sweep now
    (outcome.state, .events outcome.answer)
  | .idle now =>
    let outcome := n.idle now
    (outcome.state, .events outcome.answer)
  | .stop => (n.stop, .done)
  | .setMinRssi minRssi => ((n.setMinRssi minRssi).state, .done)

/-- Makes calls one after the other and collects what they return. -/
def run (n : Node buckets records) : List Call → Node buckets records × List Reply
  | [] => (n, [])
  | c :: cs =>
    let (m, reply) := n.call c
    let (l, replies) := run m cs
    (l, reply :: replies)

/-- The call at a reading of the clock that is rolled on. -/
def Call.shift (c : Tick) : Call → Call
  | receive r => receive (r.shift c)
  | runSlot clock => runSlot (clock.shift c)
  | advance => advance
  | stamp now => stamp (now + c)
  | sweepIfCycleComplete now => sweepIfCycleComplete (now + c)
  | sweep now => sweep (now + c)
  | idle now => idle (now + c)
  | stop => stop
  | setMinRssi minRssi => setMinRssi minRssi

/-- The reply with all readings in it rolled on. -/
def Reply.shift (c : Tick) : Reply → Reply
  | done => done
  | action a => action a
  | announcement a => announcement (a.shift c)
  | events es => events (es.map (Event.shift c))
  | report r => report (r.shift c)

/-- The node with all readings in its state rolled on. -/
def shift (c : Tick) (n : Node buckets records) : Node buckets records :=
  { n with
    tracker := n.tracker.shift c
    idleSweptAt := n.idleSweptAt.map (· + c) }

section Shift

variable (c : Tick) (n : Node buckets records)

theorem shift_start (id : NodeId) (settings : Settings) :
    (start buckets records id settings).shift c = start buckets records id settings := by
  rw [shift, start, Tracker.shift_start]
  rfl

/-! ## Receptions -/

theorem receive_shift (r : Reception) :
    ((n.shift c).receive (r.shift c)).state = (n.receive r).state.shift c ∧
      ((n.shift c).receive (r.shift c)).answer = (n.receive r).answer.map (Event.shift c) := by
  have hrejects : (n.shift c).rejects (r.shift c) = n.rejects r := rfl
  have hqualifies : (n.shift c).tracker.thresholds.qualifies (r.shift c).rssi =
      n.tracker.thresholds.qualifies r.rssi := rfl
  have hstate : ((n.tracker.shift c).receive r.announcement.source r.rssi (r.heard + c)).state =
      (n.tracker.receive r.announcement.source r.rssi r.heard).state.shift c :=
    n.tracker.receive_translate (.shifting c) r.announcement.source r.rssi r.heard
  have hanswer := n.tracker.answer_receive_shift c r.announcement.source r.rssi r.heard
  unfold receive
  rw [hrejects, hqualifies]
  split
  · exact ⟨rfl, rfl⟩
  · split
    · refine ⟨?_, hanswer⟩
      simp only [shift, Reception.shift, hstate, hanswer, Option.toList_map,
        Counters.countAll_shift]
    · exact ⟨rfl, rfl⟩

/-! ## Slots and announcements -/

theorem stamp_shift (now : Tick) :
    (n.shift c).stamp (now + c) = ((n.stamp now).1.shift c, (n.stamp now).2.shift c) := rfl

/-- A burst at readings that are rolled on. -/
theorem burst_shift (clock : SlotClock) :
    ∀ (n : Node buckets records) (waits frames : Nat),
      (n.shift c).burst (clock.shift c) waits frames =
        ((n.burst clock waits frames).1.map (RadioAct.shift c),
          (n.burst clock waits frames).2.shift c)
  | _, _, 0 => rfl
  | _, _, 1 => rfl
  | n, waits, frames + 2 => by
    have hclock : (clock.shift c).beforeFrame waits = clock.beforeFrame waits + c := rfl
    rw [burst_add_two, burst_add_two, hclock, stamp_shift,
      burst_shift clock (n.stamp (clock.beforeFrame waits)).2 (waits + 1) (frames + 1)]
    rfl

theorem perform_shift (clock : SlotClock) (action : SlotAction) :
    (n.shift c).perform (clock.shift c) action =
      ((n.perform clock action).1.map (RadioAct.shift c),
        (n.perform clock action).2.shift c) := by
  cases action with
  | idle => rfl
  | transmit frames powerOn keepRadioOn =>
    rw [perform_transmit, perform_transmit, burst_shift]
    cases powerOn <;> cases keepRadioOn <;> simp [RadioAct.shift]

/-! ## Sweeps -/

theorem sweep_shift (now : Tick) :
    ((n.shift c).sweep (now + c)).state = (n.sweep now).state.shift c ∧
      ((n.shift c).sweep (now + c)).answer = (n.sweep now).answer.map (Event.shift c) := by
  have hstate : ((n.tracker.shift c).sweep (now + c)).state =
      (n.tracker.sweep now).state.shift c :=
    n.tracker.sweep_translate (.shifting c) now
  have hanswer := n.tracker.answer_sweep_shift c now
  refine ⟨?_, hanswer⟩
  simp only [sweep, shift, hstate, hanswer, Counters.countAll_shift]

theorem sweepIfCycleComplete_shift (now : Tick) :
    ((n.shift c).sweepIfCycleComplete (now + c)).state =
        (n.sweepIfCycleComplete now).state.shift c ∧
      ((n.shift c).sweepIfCycleComplete (now + c)).answer =
        (n.sweepIfCycleComplete now).answer.map (Event.shift c) := by
  have hcycles : (n.shift c).scheduler.cycles = (n.shift c).sweptCycles ↔
      n.scheduler.cycles = n.sweptCycles := Iff.rfl
  unfold sweepIfCycleComplete
  simp only [hcycles]
  split
  · exact ⟨rfl, rfl⟩
  · exact sweep_shift c { n with sweptCycles := n.scheduler.cycles } now

theorem idle_shift (now : Tick) :
    ((n.shift c).idle (now + c)).state = (n.idle now).state.shift c ∧
      ((n.shift c).idle (now + c)).answer = (n.idle now).answer.map (Event.shift c) := by
  have hagain : (n.shift c).idleSweptAt = some (now + c) ↔ n.idleSweptAt = some now :=
    Tick.map_add_eq_some_iff n.idleSweptAt now c
  unfold idle
  simp only [hagain]
  split
  · exact ⟨rfl, rfl⟩
  · exact sweep_shift c { n with idleSweptAt := some now } now

theorem runSlot_shift (clock : SlotClock) :
    ((n.shift c).runSlot (clock.shift c)).state = (n.runSlot clock).state.shift c ∧
      ((n.shift c).runSlot (clock.shift c)).answer = (n.runSlot clock).answer.shift c := by
  have hadvance : (n.shift c).advance = (n.advance.1, n.advance.2.shift c) := rfl
  have hperform := n.advance.2.perform_shift c clock n.advance.1
  obtain ⟨hstate, hanswer⟩ := (n.advance.2.perform clock n.advance.1).2.sweepIfCycleComplete_shift c
    (clock.afterBurst ((n.advance.2.perform clock n.advance.1).1.count .wait))
  unfold runSlot
  rw [hadvance]
  dsimp only
  rw [hperform]
  dsimp only
  rw [RadioAct.count_wait_shift]
  exact ⟨hstate, congrArg (SlotReport.mk _) hanswer⟩

/-! ## Runs -/

/-- A call at a reading that is rolled on leaves the node and returns the reply that are rolled
on. -/
theorem call_shift (call : Call) :
    (n.shift c).call (call.shift c) = ((n.call call).1.shift c, (n.call call).2.shift c) := by
  cases call with
  | receive r =>
    obtain ⟨hstate, hanswer⟩ := n.receive_shift c r
    simp only [Node.call, Call.shift, Reply.shift, hstate, hanswer, Option.toList_map]
  | runSlot clock =>
    obtain ⟨hstate, hanswer⟩ := n.runSlot_shift c clock
    simp only [Node.call, Call.shift, Reply.shift, hstate, hanswer]
  | advance => rfl
  | stamp now => rfl
  | sweepIfCycleComplete now =>
    obtain ⟨hstate, hanswer⟩ := n.sweepIfCycleComplete_shift c now
    simp only [Node.call, Call.shift, Reply.shift, hstate, hanswer]
  | sweep now =>
    obtain ⟨hstate, hanswer⟩ := n.sweep_shift c now
    simp only [Node.call, Call.shift, Reply.shift, hstate, hanswer]
  | idle now =>
    obtain ⟨hstate, hanswer⟩ := n.idle_shift c now
    simp only [Node.call, Call.shift, Reply.shift, hstate, hanswer]
  | stop => rfl
  | setMinRssi minRssi => rfl

/-- A run at readings that are rolled on, from any state. -/
theorem run_shift (calls : List Call) :
    ∀ n : Node buckets records,
      (n.shift c).run (calls.map (Call.shift c)) =
        ((n.run calls).1.shift c, (n.run calls).2.map (Reply.shift c)) := by
  induction calls with
  | nil => exact fun n => rfl
  | cons call calls ih =>
    intro n
    rw [List.map_cons, run, call_shift]
    dsimp only
    rw [ih]
    rfl

end Shift

/-- **The clock rolls over unseen.**  From a node that has just been switched on, with any settings,
calls at readings that are all rolled on by `c` leave the same state and return the same replies but
for the readings in them, which are rolled on by `c` as well. -/
theorem run_start_shift (buckets records : Nat) (id : NodeId) (settings : Settings) (c : Tick)
    (calls : List Call) :
    (start buckets records id settings).run (calls.map (Call.shift c)) =
      (((start buckets records id settings).run calls).1.shift c,
        ((start buckets records id settings).run calls).2.map (Reply.shift c)) := by
  have hrun := run_shift c calls (start buckets records id settings)
  rwa [shift_start] at hrun

end Node

end PeerBeacon
