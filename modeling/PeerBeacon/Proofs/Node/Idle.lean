import PeerBeacon.Proofs.Node.Radio
import PeerBeacon.Proofs.Node.Rollover
import PeerBeacon.Proofs.Tracker.Rest

/-!
# Idle slots

While its schedule is stopped a node is called once per slot and sweeps once per second.  It tells
the second by the reading of the clock at its last idle sweep, and by nothing else: since then peers
may have been heard, other sweeps may have run and the signal threshold may have moved.
Nevertheless the sweeps that are left out are missed by nobody.

The argument follows a node together with the census that its tracker keeps (`Node.Tended`).  The
tracker has been at rest since the last idle sweep, as long as the clock has not moved, so a sweep
that is left out would have changed nothing (`Node.Tended.call_eager`).  Hence a node that sweeps in
every idle slot goes through the same states, the remembered reading apart, and returns the same
replies (`Node.run_eager_start`).
-/

namespace PeerBeacon

namespace Node

variable {buckets records : Nat}

/-! ## Diaries of a node -/

/-- Something that is done to a node, the time apart. -/
inductive Act where
  | receive (announcement : Announcement) (rssi : Int16)
  | runSlot
  | advance
  | stamp
  | sweepIfCycleComplete
  | sweep
  | idle
  | stop
  | setMinRssi (minRssi : Int16)

/-- Something that is done to a node in a second. -/
structure Entry where
  second : Nat
  act : Act

/-- The reading of the clock at an entry. -/
def Entry.tick (e : Entry) : Tick :=
  UInt32.ofNat e.second

/-- The call that is made at an entry.  An announcement is taken in when it is received, and the
clock does not move during a slot. -/
def Entry.call (e : Entry) : Call :=
  match e.act with
  | .receive announcement rssi => .receive { announcement, rssi, heard := e.tick }
  | .runSlot => .runSlot (.steady e.tick)
  | .advance => .advance
  | .stamp => .stamp e.tick
  | .sweepIfCycleComplete => .sweepIfCycleComplete e.tick
  | .sweep => .sweep e.tick
  | .idle => .idle e.tick
  | .stop => .stop
  | .setMinRssi minRssi => .setMinRssi minRssi

/-- The call with a sweep in place of an idle slot. -/
def Call.eager : Call → Call
  | idle now => sweep now
  | receive r => receive r
  | runSlot clock => runSlot clock
  | advance => advance
  | stamp now => stamp now
  | sweepIfCycleComplete now => sweepIfCycleComplete now
  | sweep now => sweep now
  | stop => stop
  | setMinRssi minRssi => setMinRssi minRssi

theorem Entry.eager_call {e : Entry} (h : e.act ≠ .idle) :
    (∀ now, e.call ≠ .idle now) ∧ e.call.eager = e.call := by
  obtain ⟨second, act⟩ := e
  cases act <;> first | exact absurd rfl h | exact ⟨fun _ => Call.noConfusion, rfl⟩

/-- The node without the reading at its last idle sweep. -/
def unmarked (n : Node buckets records) : Node buckets records :=
  { n with idleSweptAt := none }

/-! ## Calls and the last idle sweep -/

section Unmarked

variable (n : Node buckets records)

theorem burst_unmarked (clock : SlotClock) (waits frames : Nat) :
    n.unmarked.burst clock waits frames =
      ((n.burst clock waits frames).1, (n.burst clock waits frames).2.unmarked) := by
  refine Prod.ext ?_ ?_
  · rw [acts_burst, acts_burst]
    rfl
  · rw [state_burst, state_burst]
    rfl

theorem perform_unmarked (clock : SlotClock) (action : SlotAction) :
    n.unmarked.perform clock action =
      ((n.perform clock action).1, (n.perform clock action).2.unmarked) := by
  cases action with
  | idle => rfl
  | transmit frames powerOn keepRadioOn =>
    rw [perform_transmit, perform_transmit, burst_unmarked]

theorem receive_unmarked (r : Reception) :
    (n.unmarked.receive r).answer = (n.receive r).answer ∧
      (n.unmarked.receive r).state = (n.receive r).state.unmarked := by
  have hrejects : n.unmarked.rejects r = n.rejects r := rfl
  have hqualifies : n.unmarked.tracker.thresholds.qualifies r.rssi =
      n.tracker.thresholds.qualifies r.rssi := rfl
  rw [receive, receive, hrejects, hqualifies]
  split
  · exact ⟨rfl, rfl⟩
  · split <;> exact ⟨rfl, rfl⟩

theorem sweepIfCycleComplete_unmarked (now : Tick) :
    (n.unmarked.sweepIfCycleComplete now).answer = (n.sweepIfCycleComplete now).answer ∧
      (n.unmarked.sweepIfCycleComplete now).state =
        (n.sweepIfCycleComplete now).state.unmarked := by
  have hcycles : n.unmarked.scheduler.cycles = n.unmarked.sweptCycles ↔
      n.scheduler.cycles = n.sweptCycles := Iff.rfl
  unfold sweepIfCycleComplete
  simp only [hcycles]
  split <;> exact ⟨rfl, rfl⟩

theorem runSlot_unmarked (clock : SlotClock) :
    (n.unmarked.runSlot clock).answer = (n.runSlot clock).answer ∧
      (n.unmarked.runSlot clock).state = (n.runSlot clock).state.unmarked := by
  have hadvance : n.unmarked.advance = (n.advance.1, n.advance.2.unmarked) := rfl
  have hperform := n.advance.2.perform_unmarked clock n.advance.1
  obtain ⟨hanswer, hstate⟩ :=
    (n.advance.2.perform clock n.advance.1).2.sweepIfCycleComplete_unmarked
      (clock.afterBurst ((n.advance.2.perform clock n.advance.1).1.count .wait))
  unfold runSlot
  rw [hadvance]
  dsimp only
  rw [hperform]
  exact ⟨congrArg (SlotReport.mk _) hanswer, hstate⟩

/-- Only idle slots look at the reading at the last idle sweep. -/
theorem call_unmarked {call : Call} (h : ∀ now, call ≠ .idle now) :
    n.unmarked.call call = ((n.call call).1.unmarked, (n.call call).2) := by
  cases call with
  | receive r =>
    obtain ⟨hanswer, hstate⟩ := n.receive_unmarked r
    exact Prod.ext hstate (congrArg (fun a : Option Event => Reply.events a.toList) hanswer)
  | runSlot clock =>
    obtain ⟨hanswer, hstate⟩ := n.runSlot_unmarked clock
    exact Prod.ext hstate (congrArg Reply.report hanswer)
  | sweepIfCycleComplete now =>
    obtain ⟨hanswer, hstate⟩ := n.sweepIfCycleComplete_unmarked now
    exact Prod.ext hstate (congrArg Reply.events hanswer)
  | idle now => exact absurd rfl (h now)
  | advance => rfl
  | stamp now => rfl
  | sweep now => rfl
  | stop => rfl
  | setMinRssi minRssi => rfl

theorem idleSweptAt_receive (r : Reception) :
    (n.receive r).state.idleSweptAt = n.idleSweptAt := by
  unfold receive
  split
  · rfl
  · split <;> rfl

theorem idleSweptAt_sweepIfCycleComplete (now : Tick) :
    (n.sweepIfCycleComplete now).state.idleSweptAt = n.idleSweptAt := by
  unfold sweepIfCycleComplete
  split <;> rfl

/-- Any other entry leaves that reading, and at most asks something of the tracker. -/
theorem call_cases {e : Entry} (h : e.act ≠ .idle) :
    (n.call e.call).1.idleSweptAt = n.idleSweptAt ∧
      ((n.call e.call).1.tracker = n.tracker ∨ ∃ act,
        (n.call e.call).1.tracker = (n.tracker.call (Tracker.Entry.mk e.second act).call).1) := by
  obtain ⟨second, act⟩ := e
  cases act with
  | receive announcement rssi =>
    refine ⟨n.idleSweptAt_receive _, ?_⟩
    simp only [Entry.call, Node.call]
    unfold receive
    split
    · exact .inl rfl
    · split
      · exact .inr ⟨.receive announcement.source rssi, rfl⟩
      · exact .inl rfl
  | runSlot =>
    refine ⟨?_, ?_⟩
    · simp only [Entry.call, Node.call, state_runSlot, idleSweptAt_sweepIfCycleComplete]
      rfl
    · rcases n.runSlot_cases (.steady (Entry.tick ⟨second, .runSlot⟩)) with ⟨hkept, -⟩ | ⟨hswept, -⟩
      · exact .inl hkept
      · exact .inr ⟨.sweep, hswept⟩
  | sweepIfCycleComplete =>
    refine ⟨n.idleSweptAt_sweepIfCycleComplete _, ?_⟩
    rcases n.sweepIfCycleComplete_cases (Entry.tick ⟨second, .sweepIfCycleComplete⟩) with
      ⟨hkept, -⟩ | ⟨hswept, -⟩
    · exact .inl hkept
    · exact .inr ⟨.sweep, hswept⟩
  | sweep => exact ⟨rfl, .inr ⟨.sweep, rfl⟩⟩
  | idle => exact absurd rfl h
  | advance => exact ⟨rfl, .inl rfl⟩
  | stamp => exact ⟨rfl, .inl rfl⟩
  | stop => exact ⟨rfl, .inl rfl⟩
  | setMinRssi minRssi => exact ⟨rfl, .inr ⟨.setMinRssi minRssi, rfl⟩⟩

end Unmarked

/-! ## Tended nodes -/

/-- A node whose tracker keeps a current census, and has been at rest since the last idle sweep if
that was in the second `now`. -/
structure Tended (first now : Nat) (n : Node buckets records) (c : Census) : Prop where
  mirrors : n.tracker.Mirrors c
  current : c.Current first now
  marked : ∀ tick ∈ n.idleSweptAt, ∃ s, tick = UInt32.ofNat s ∧ first ≤ s ∧ s ≤ now ∧
    (s = now → c.AtRest tick)

namespace Tended

variable {first now earlier : Nat} {n m : Node buckets records} {c d : Census}

theorem start (id : NodeId) {settings : Settings} (h : settings.thresholds.Lenient) (now : Nat) :
    (start buckets records id settings).Tended now now (.start settings.thresholds) where
  mirrors := .start buckets records settings.thresholds
  current := .start h now
  marked _ htick := nomatch htick

/-- The clock moves on. -/
theorem mono (h : n.Tended first earlier c) (hle : earlier ≤ now) : n.Tended first now c where
  mirrors := h.mirrors
  current := h.current.mono hle
  marked tick htick := by
    obtain ⟨s, hs, hfirst, hearlier, hrest⟩ := h.marked tick htick
    exact ⟨s, hs, hfirst, hearlier.trans hle, fun hnow => hrest (by omega)⟩

/-- What the tracker is asked to do leaves it at rest. -/
theorem track {e : Tracker.Entry} (h : n.Tended first e.second c)
    (hlt : e.second < first + 2 ^ 31) (hmark : m.idleSweptAt = n.idleSweptAt)
    (htracker : m.tracker = (n.tracker.call e.call).1) : ∃ d, m.Tended first e.second d := by
  obtain ⟨d, hstep, hd⟩ := h.mirrors.exists_step e.call
  refine ⟨d, htracker ▸ hd, h.current.step hstep hlt, fun tick htick => ?_⟩
  rw [hmark] at htick
  obtain ⟨s, rfl, hfirst, hs, hrest⟩ := h.marked tick htick
  refine ⟨s, rfl, hfirst, hs, fun hnow => ?_⟩
  subst hnow
  exact h.current.atRest hstep hlt (hrest rfl)

/-- If the last idle sweep was at the reading of the clock, then it was in this second, and the
tracker is at rest. -/
theorem atRest (h : n.Tended first now c) (hlt : now < first + 2 ^ 31)
    (hmark : n.idleSweptAt = some (UInt32.ofNat now)) : c.AtRest (UInt32.ofNat now) := by
  obtain ⟨s, htick, hfirst, hs, hrest⟩ := h.marked _ hmark
  have hmod := congrArg UInt32.toNat htick
  rw [UInt32.toNat_ofNat', UInt32.toNat_ofNat'] at hmod
  -- Both seconds are less than a round of the clock after `first`.
  exact hrest (by omega)

/-- A sweep in an idle slot leaves the tracker at rest. -/
theorem idle (h : n.Tended first now c) (hlt : now < first + 2 ^ 31) :
    ∃ d, ({ n with idleSweptAt := some (UInt32.ofNat now) }.sweep
      (UInt32.ofNat now)).state.Tended first now d := by
  obtain ⟨d, hstep, hd⟩ := h.mirrors.exists_step_sweep (UInt32.ofNat now)
  refine ⟨d, hd, h.current.step (e := ⟨now, .sweep⟩) hstep hlt, fun tick htick => ?_⟩
  obtain rfl := Option.some.inj htick
  exact ⟨now, rfl, h.current.first_le, Nat.le_refl now, fun _ => hstep.atRest⟩

/-- At any other entry the tracker is left as it is, or asked to do something. -/
theorem call_of_ne_idle {e : Entry} (h : n.Tended first e.second c)
    (hlt : e.second < first + 2 ^ 31) (hact : e.act ≠ .idle) :
    ∃ d, (n.call e.call).1.Tended first e.second d := by
  obtain ⟨hmark, hkept | ⟨act, htold⟩⟩ := n.call_cases hact
  · refine ⟨c, hkept ▸ h.mirrors, h.current, fun tick htick => ?_⟩
    rw [hmark] at htick
    exact h.marked tick htick
  · exact h.track (e := ⟨e.second, act⟩) hlt hmark htold

/-- A sweep in place of an idle slot changes nothing but the remembered reading. -/
theorem call_eager {e : Entry} (h : n.Tended first e.second c) (hlt : e.second < first + 2 ^ 31) :
    (∃ d, (n.call e.call).1.Tended first e.second d) ∧
      n.unmarked.call e.call.eager = ((n.call e.call).1.unmarked, (n.call e.call).2) := by
  by_cases hact : e.act = .idle
  · obtain ⟨second, act⟩ := e
    obtain rfl := hact
    change (∃ d, (n.call (.idle (UInt32.ofNat second))).1.Tended first second d) ∧
      n.unmarked.call (.sweep (UInt32.ofNat second)) =
        ((n.call (.idle (UInt32.ofNat second))).1.unmarked,
          (n.call (.idle (UInt32.ofNat second))).2)
    by_cases hmark : n.idleSweptAt = some (UInt32.ofNat second)
    · -- The sweep that is left out would have found nothing due.
      have hsweep := h.mirrors.sweep_of_atRest (h.atRest hlt hmark)
      have hlazy : n.call (.idle (UInt32.ofNat second)) = (n, .events []) := by
        rw [Node.call, Node.idle, if_pos hmark]
      have heager : n.unmarked.call (.sweep (UInt32.ofNat second)) =
          (n.unmarked, .events []) := by
        simp only [Node.call, sweep, unmarked, hsweep]
        rfl
      rw [hlazy, heager]
      exact ⟨⟨c, h⟩, rfl⟩
    · have hidle : n.idle (UInt32.ofNat second) =
          { n with idleSweptAt := some (UInt32.ofNat second) }.sweep (UInt32.ofNat second) :=
        if_neg hmark
      simp only [Node.call, hidle]
      exact ⟨h.idle hlt, rfl⟩
  · obtain ⟨hcall, heager⟩ := e.eager_call hact
    rw [heager]
    exact ⟨h.call_of_ne_idle hlt hact, n.call_unmarked hcall⟩

/-- A run with a sweep in place of every idle slot, from any tended node. -/
theorem run_eager (diary : List Entry) :
    ∀ {earlier : Nat} {n : Node buckets records} {c : Census}, n.Tended first earlier c →
      diary.Pairwise (fun e e' => e.second ≤ e'.second) →
      (∀ e ∈ diary, earlier ≤ e.second ∧ e.second < first + 2 ^ 31) →
      n.unmarked.run ((diary.map Entry.call).map Call.eager) =
        ((n.run (diary.map Entry.call)).1.unmarked, (n.run (diary.map Entry.call)).2) := by
  induction diary with
  | nil => exact fun _ _ _ => rfl
  | cons e diary ih =>
    intro earlier n c h hordered hwithin
    obtain ⟨hfirst, hrest⟩ := List.pairwise_cons.mp hordered
    obtain ⟨hle, hlt⟩ := hwithin e List.mem_cons_self
    obtain ⟨⟨d, hd⟩, hcall⟩ := (h.mono hle).call_eager hlt
    have htail := ih hd hrest fun e' he' =>
      ⟨hfirst e' he', (hwithin e' (List.mem_cons_of_mem e he')).2⟩
    rw [List.map_cons, List.map_cons, run, hcall]
    dsimp only
    rw [htail]
    rfl

end Tended

/-- **Idle sweeps are missed by nobody.**  Take settings that are accepted and leave a grace of at
least a second, and a diary that is kept in order and covers less than half the range of the clock.
A node that sweeps in every idle slot returns the same replies as one that sweeps at most once per
second, and ends up in the same state, the remembered reading apart. -/
theorem run_eager_start (buckets records : Nat) (id : NodeId) (settings : Settings)
    (diary : List Entry) (valid : settings.check = .ok ())
    (graceful : settings.thresholds.leaveGrace ≠ 0)
    (ordered : diary.Pairwise fun e e' => e.second ≤ e'.second)
    (within : ∀ e ∈ diary, ∀ e' ∈ diary, e'.second < e.second + 2 ^ 31) :
    (start buckets records id settings).run ((diary.map Entry.call).map Call.eager) =
      (((start buckets records id settings).run (diary.map Entry.call)).1.unmarked,
        ((start buckets records id settings).run (diary.map Entry.call)).2) := by
  have hlenient := Thresholds.lenient_of_check ((Settings.check_eq_ok_iff settings).mp valid).2
    graceful
  cases diary with
  | nil => rfl
  | cons e diary =>
    refine (Tended.start id hlenient e.second).run_eager (e :: diary) ordered fun e' he' => ?_
    refine ⟨?_, within e List.mem_cons_self e' he'⟩
    rcases List.mem_cons.mp he' with rfl | hlater
    · exact Nat.le_refl _
    · exact (List.pairwise_cons.mp ordered).1 e' hlater

/-- Settings with thresholds of a few seconds. -/
def drowsySettings : Settings where
  thresholds := { detectAfter := 2, absentAfter := 4, shortTimeout := 2, leaveGrace := 1 }

/-- A peer comes and goes while the schedule is stopped and the clock rolls over, with more than one
idle slot in some seconds. -/
def siesta : List Entry :=
  [⟨4294967294, .receive ⟨7, 1, 0⟩ (-50)⟩, ⟨4294967294, .stop⟩, ⟨4294967294, .idle⟩,
    ⟨4294967295, .receive ⟨7, 2, 1⟩ (-50)⟩, ⟨4294967295, .idle⟩, ⟨4294967295, .setMinRssi (-60)⟩,
    ⟨4294967295, .idle⟩, ⟨4294967296, .idle⟩, ⟨4294967296, .receive ⟨7, 3, 2⟩ (-50)⟩,
    ⟨4294967296, .idle⟩, ⟨4294967297, .idle⟩, ⟨4294967297, .idle⟩, ⟨4294967300, .idle⟩,
    ⟨4294967300, .idle⟩]

theorem run_eager_start_siesta :
    drowsySettings.check = .ok () ∧ drowsySettings.thresholds.leaveGrace ≠ 0 ∧
      (siesta.Pairwise fun e e' => e.second ≤ e'.second) ∧
      (∀ e ∈ siesta, ∀ e' ∈ siesta, e'.second < e.second + 2 ^ 31) ∧
      (start 4 2 2 drowsySettings).run ((siesta.map Entry.call).map Call.eager) =
        (((start 4 2 2 drowsySettings).run (siesta.map Entry.call)).1.unmarked,
          ((start 4 2 2 drowsySettings).run (siesta.map Entry.call)).2) := by
  have valid : drowsySettings.check = .ok () := rfl
  have graceful : drowsySettings.thresholds.leaveGrace ≠ 0 := by decide
  have ordered : siesta.Pairwise fun e e' => e.second ≤ e'.second := by decide
  have within : ∀ e ∈ siesta, ∀ e' ∈ siesta, e'.second < e.second + 2 ^ 31 := by decide
  exact ⟨valid, graceful, ordered, within,
    run_eager_start 4 2 2 drowsySettings siesta valid graceful ordered within⟩

/-- The peer is detected in the third second of the siesta, leaves a second later and is absent
after three more, all in the first idle slot of a second. -/
example :
    ((start 4 2 2 drowsySettings).run (siesta.map Entry.call)).2.drop 8 =
      [.events [.detect 7 4294967294], .events [], .events [.leave 7 0], .events [],
        .events [.absent 7 0 0], .events []] := by
  decide

end Node

end PeerBeacon
