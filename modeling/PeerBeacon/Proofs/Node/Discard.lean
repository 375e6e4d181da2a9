import PeerBeacon.Proofs.Node.Accounts

/-!
# Receptions that come to nothing

A node discards a reception that cannot concern a peer, one that is too weak, and one from a new
peer for which there is no room.  Some of these get as far as the roster before they are turned
away, so that it takes an argument to see that nothing is left of them but a count: of receptions,
of weak ones, of rejected ones, or of peers turned away.

The argument compares two runs.  `Node.uncounted` blanks the four counts, and no call looks at them
(`Node.call_uncounted`); a discarded reception changes nothing else (`Node.receive_of_discards`).
So a run from which the discarded receptions are left out goes through the same states and returns
the same replies, up to the counts (`Node.run_without_discarded`).
-/

namespace PeerBeacon

/-! ## The count of peers turned away -/

namespace Roster

variable {buckets records : Nat}

/-- The roster with nobody counted as turned away. -/
def uncounted (t : Roster buckets records) : Roster buckets records :=
  { t with refusals := 0 }

section Uncounted

variable (t : Roster buckets records) (id : NodeId)

theorem modify_uncounted (f : Record → Record) :
    t.uncounted.modify id f = (t.modify id f).uncounted := by
  have hfind : t.uncounted.find? id = t.find? id := rfl
  rw [modify, modify, hfind]
  cases t.find? id <;> rfl

theorem erase_uncounted : t.uncounted.erase id = (t.erase id).uncounted := by
  have hfind : t.uncounted.find? id = t.find? id := rfl
  rw [erase, erase, erase?, erase?, hfind]
  cases t.find? id <;> rfl

theorem foldl_erase_uncounted (gone : List NodeId) :
    gone.foldl erase t.uncounted = (gone.foldl erase t).uncounted :=
  List.foldl_hom uncounted fun u id => erase_uncounted u id

/-- Whether a peer is let in does not depend on how many were turned away before. -/
theorem insert_uncounted :
    (t.uncounted.insert id).answer = (t.insert id).answer ∧
      (t.uncounted.insert id).state.uncounted = (t.insert id).state.uncounted := by
  have hfind : t.uncounted.find? id = t.find? id := rfl
  have hseat : t.uncounted.seat? id = t.seat? id := rfl
  have hfree : t.uncounted.free = t.free := rfl
  rw [insert, insert]
  split
  · exact ⟨rfl, rfl⟩
  · rw [hfind, hseat, hfree]
    cases t.find? id with
    | some found => exact ⟨rfl, rfl⟩
    | none =>
      cases t.seat? id with
      | none => exact ⟨rfl, rfl⟩
      | some i => cases t.free <;> exact ⟨rfl, rfl⟩

theorem enroll_uncounted (heard : Tick) :
    (t.uncounted.enroll id heard).state.uncounted = (t.enroll id heard).state.uncounted := by
  have hcontains : t.uncounted.contains id = t.contains id := rfl
  obtain ⟨hanswer, hstate⟩ := t.insert_uncounted id
  rw [enroll, enroll, hcontains]
  split
  · rfl
  · dsimp only
    rw [hanswer]
    split
    · dsimp only
      rw [← modify_uncounted, ← modify_uncounted, hstate]
    · exact hstate

/-- A new peer for which there is no room leaves nothing but a count. -/
theorem enroll_of_refused {t : Roster buckets records} {id : NodeId} (h : t.Faithful)
    (unknown : t.contains id = false) (full : t.capacity ≤ t.count) (heard : Tick) :
    (t.enroll id heard).state.uncounted = t.uncounted := by
  have hno : (t.insert id).answer = false := by
    refine Bool.eq_false_iff.mpr fun hyes => ?_
    rcases ((h.answer_insert id).mp hyes).2 with hknown | hroom
    · rw [contains_eq_isSome_get?, h.mem_ids_iff.mp hknown] at unknown
      cases unknown
    · omega
  rw [enroll, unknown, if_neg Bool.false_ne_true]
  dsimp only
  rw [hno, if_neg Bool.false_ne_true]
  rcases t.insert_cases id with ⟨_, heq⟩ | ⟨_, _, _, _, heq⟩ | ⟨_, _, _, _, _, _, _, heq⟩ |
    ⟨_, _, _, heq⟩
  · rw [heq]
  · rw [heq] at hno
    cases hno
  · rw [heq] at hno
    cases hno
  · rw [heq]
    rfl

end Uncounted

end Roster

namespace Tracker

variable {buckets records : Nat}

/-- The tracker with nobody counted as turned away. -/
def uncounted (t : Tracker buckets records) : Tracker buckets records :=
  { t with roster := t.roster.uncounted }

/-- A reception is taken alike whatever the count. -/
theorem receive_uncounted (t : Tracker buckets records) (id : NodeId) (rssi : Int16)
    (heard : Tick) :
    (t.uncounted.receive id rssi heard).answer = (t.receive id rssi heard).answer ∧
      (t.uncounted.receive id rssi heard).state.uncounted =
        (t.receive id rssi heard).state.uncounted := by
  cases hq : t.thresholds.qualifies rssi with
  | false =>
    rw [receive_of_not_qualifies t id heard hq, receive_of_not_qualifies t.uncounted id heard hq]
    exact ⟨rfl, rfl⟩
  | true =>
    have henroll := t.roster.enroll_uncounted id heard
    have hget : (t.roster.uncounted.enroll id heard).state.get? id =
        (t.roster.enroll id heard).state.get? id :=
      (congrArg (Roster.get? · id) henroll :)
    have hq' : t.uncounted.thresholds.qualifies rssi = true := hq
    rw [answer_receive hq, answer_receive hq', state_receive hq, state_receive hq']
    refine ⟨congrArg (Option.bind · _) hget, ?_⟩
    refine congrArg (Tracker.mk · t.thresholds) ?_
    change (((t.roster.uncounted.enroll id heard).state.modify id _).uncounted : Roster _ _) = _
    rw [← Roster.modify_uncounted, ← Roster.modify_uncounted, henroll]
    rfl

/-- A sweep does the same whatever the count. -/
theorem sweep_uncounted (t : Tracker buckets records) (now : Tick) :
    (t.uncounted.sweep now).answer = (t.sweep now).answer ∧
      (t.uncounted.sweep now).state = (t.sweep now).state.uncounted :=
  ⟨rfl, congrArg (Tracker.mk · t.thresholds)
    (Roster.foldl_erase_uncounted (t.roster.map (Record.aged t.thresholds now)) (t.expired now))⟩

end Tracker

/-! ## The counts of a node -/

/-- The counters with no reception counted.  Announcements sent and events are still counted. -/
def Counters.uncounted (c : Counters) : Counters :=
  { c with received := 0, weak := 0, rejected := 0 }

theorem Counters.countAll_uncounted (events : List Event) (c : Counters) :
    c.uncounted.countAll events = (c.countAll events).uncounted := by
  rw [countAll_eq, countAll_eq]
  rfl

namespace Node

variable {buckets records : Nat}

/-- The node with no reception counted, and nobody counted as turned away. -/
def uncounted (n : Node buckets records) : Node buckets records :=
  { n with
    tracker := n.tracker.uncounted
    counters := n.counters.uncounted }

/-- Two nodes that nothing but those counts tells apart. -/
structure Resembles (m n : Node buckets records) : Prop where
  /-- They track the same peers in the same order. -/
  ids_eq : m.tracker.roster.ids = n.tracker.roster.ids
  /-- The peers have the same records. -/
  tracked_eq : m.tracker.roster.tracked = n.tracker.roster.tracked
  trackedCount_eq : m.trackedCount = n.trackedCount
  presentCount_eq : m.presentCount = n.presentCount
  /-- All the rest is the same as well. -/
  uncounted_eq : m.uncounted = n.uncounted

theorem Resembles.of_uncounted_eq {m n : Node buckets records} (h : m.uncounted = n.uncounted) :
    m.Resembles n where
  ids_eq := (congrArg (fun n : Node _ _ => n.tracker.roster.ids) h :)
  tracked_eq := (congrArg (fun n : Node _ _ => n.tracker.roster.tracked) h :)
  trackedCount_eq := (congrArg trackedCount h :)
  presentCount_eq := (congrArg presentCount h :)
  uncounted_eq := h

/-! ### What is done to a node -/

section Uncounted

variable (n : Node buckets records)

theorem receive_uncounted (r : Reception) :
    (n.uncounted.receive r).answer = (n.receive r).answer ∧
      (n.uncounted.receive r).state.uncounted = (n.receive r).state.uncounted := by
  have hrejects : n.uncounted.rejects r = n.rejects r := rfl
  have hqualifies : n.uncounted.tracker.thresholds.qualifies r.rssi =
      n.tracker.thresholds.qualifies r.rssi := rfl
  obtain ⟨hanswer, hstate⟩ :=
    n.tracker.receive_uncounted r.announcement.source r.rssi r.heard
  rw [receive, receive, hrejects, hqualifies]
  split
  · exact ⟨rfl, rfl⟩
  · split
    · refine ⟨hanswer, ?_⟩
      have hcounters := Counters.countAll_uncounted
        (n.tracker.receive r.announcement.source r.rssi r.heard).answer.toList
      simp only [uncounted, hstate, hanswer, ← hcounters]
      rfl
    · exact ⟨rfl, rfl⟩

theorem burst_uncounted (clock : SlotClock) :
    ∀ (n : Node buckets records) (waits frames : Nat),
      n.uncounted.burst clock waits frames =
        ((n.burst clock waits frames).1, (n.burst clock waits frames).2.uncounted)
  | _, _, 0 => rfl
  | _, _, 1 => rfl
  | n, waits, frames + 2 => by
    have hstamp : n.uncounted.stamp (clock.beforeFrame waits) =
      ((n.stamp (clock.beforeFrame waits)).1, (n.stamp (clock.beforeFrame waits)).2.uncounted) :=
      rfl
    rw [burst_add_two, burst_add_two, hstamp,
      burst_uncounted clock (n.stamp (clock.beforeFrame waits)).2 (waits + 1) (frames + 1)]

theorem perform_uncounted (clock : SlotClock) (action : SlotAction) :
    n.uncounted.perform clock action =
      ((n.perform clock action).1, (n.perform clock action).2.uncounted) := by
  cases action with
  | idle => rfl
  | transmit frames powerOn keepRadioOn =>
    rw [perform_transmit, perform_transmit, burst_uncounted]

theorem sweep_uncounted (now : Tick) :
    (n.uncounted.sweep now).answer = (n.sweep now).answer ∧
      (n.uncounted.sweep now).state = (n.sweep now).state.uncounted := by
  obtain ⟨hanswer, hstate⟩ := n.tracker.sweep_uncounted now
  refine ⟨hanswer, ?_⟩
  have hcounters := Counters.countAll_uncounted (n.tracker.sweep now).answer n.counters
  simp only [sweep, uncounted, hstate, ← hcounters]
  rfl

theorem sweepIfCycleComplete_uncounted (now : Tick) :
    (n.uncounted.sweepIfCycleComplete now).answer = (n.sweepIfCycleComplete now).answer ∧
      (n.uncounted.sweepIfCycleComplete now).state =
        (n.sweepIfCycleComplete now).state.uncounted := by
  have hcycles : n.uncounted.scheduler.cycles = n.uncounted.sweptCycles ↔
      n.scheduler.cycles = n.sweptCycles := Iff.rfl
  unfold sweepIfCycleComplete
  simp only [hcycles]
  split
  · exact ⟨rfl, rfl⟩
  · exact sweep_uncounted { n with sweptCycles := n.scheduler.cycles } now

theorem idle_uncounted (now : Tick) :
    (n.uncounted.idle now).answer = (n.idle now).answer ∧
      (n.uncounted.idle now).state = (n.idle now).state.uncounted := by
  have hagain : n.uncounted.idleSweptAt = n.idleSweptAt := rfl
  rw [idle, idle, hagain]
  split
  · exact ⟨rfl, rfl⟩
  · exact sweep_uncounted { n with idleSweptAt := some now } now

theorem runSlot_uncounted (clock : SlotClock) :
    (n.uncounted.runSlot clock).answer = (n.runSlot clock).answer ∧
      (n.uncounted.runSlot clock).state = (n.runSlot clock).state.uncounted := by
  have hadvance : n.uncounted.advance = (n.advance.1, n.advance.2.uncounted) := rfl
  have hperform := n.advance.2.perform_uncounted clock n.advance.1
  obtain ⟨hanswer, hstate⟩ :=
    (n.advance.2.perform clock n.advance.1).2.sweepIfCycleComplete_uncounted
      (clock.afterBurst ((n.advance.2.perform clock n.advance.1).1.count .wait))
  unfold runSlot
  rw [hadvance]
  dsimp only
  rw [hperform]
  exact ⟨congrArg (SlotReport.mk _) hanswer, hstate⟩

/-- No call looks at the counts. -/
theorem call_uncounted (call : Call) :
    (n.uncounted.call call).2 = (n.call call).2 ∧
      (n.uncounted.call call).1.uncounted = (n.call call).1.uncounted := by
  cases call with
  | receive r =>
    obtain ⟨hanswer, hstate⟩ := n.receive_uncounted r
    exact ⟨congrArg (fun a : Option Event => Reply.events a.toList) hanswer, hstate⟩
  | runSlot clock =>
    obtain ⟨hanswer, hstate⟩ := n.runSlot_uncounted clock
    exact ⟨congrArg Reply.report hanswer, (congrArg uncounted hstate :)⟩
  | sweepIfCycleComplete now =>
    obtain ⟨hanswer, hstate⟩ := n.sweepIfCycleComplete_uncounted now
    exact ⟨congrArg Reply.events hanswer, (congrArg uncounted hstate :)⟩
  | sweep now =>
    obtain ⟨hanswer, hstate⟩ := n.sweep_uncounted now
    exact ⟨congrArg Reply.events hanswer, (congrArg uncounted hstate :)⟩
  | idle now =>
    obtain ⟨hanswer, hstate⟩ := n.idle_uncounted now
    exact ⟨congrArg Reply.events hanswer, (congrArg uncounted hstate :)⟩
  | advance => exact ⟨rfl, rfl⟩
  | stamp now => exact ⟨rfl, rfl⟩
  | stop => exact ⟨rfl, rfl⟩
  | setMinRssi minRssi => exact ⟨rfl, rfl⟩

end Uncounted

/-! ## Discarded receptions -/

/-- The reception cannot concern a peer, is below the signal threshold in force, or comes from a new
peer while there is no room. -/
def discards (n : Node buckets records) (r : Reception) : Bool :=
  n.rejects r || decide (r.rssi < n.tracker.thresholds.minRssi) ||
    !n.tracker.roster.contains r.announcement.source &&
      decide (n.tracker.roster.capacity ≤ n.trackedCount)

/-- A discarded reception moves counts and does nothing else. -/
theorem receive_of_discards {n : Node buckets records} (h : n.tracker.roster.Faithful)
    {r : Reception} (hr : n.discards r = true) :
    (n.receive r).answer = none ∧ (n.receive r).state.uncounted = n.uncounted := by
  rw [receive]
  split
  · exact ⟨rfl, rfl⟩
  · next hrejects =>
    split
    · next hqualifies =>
      have hstrong : ¬r.rssi < n.tracker.thresholds.minRssi :=
        Int16.not_lt.mpr (of_decide_eq_true hqualifies)
      simp only [discards, hrejects, hstrong, decide_false, Bool.or_false, Bool.false_or,
        Bool.and_eq_true, Bool.not_eq_true', decide_eq_true_eq] at hr
      obtain ⟨hunknown, hfull⟩ := hr
      have henroll := Roster.enroll_of_refused h hunknown hfull r.heard
      have hget : (n.tracker.roster.enroll r.announcement.source r.heard).state.get?
          r.announcement.source = none := by
        have hsame := congrArg (Roster.get? · r.announcement.source) henroll
        rw [Roster.contains_eq_isSome_get?, Option.isSome_eq_false_iff,
          Option.isNone_iff_eq_none] at hunknown
        exact hsame.trans hunknown
      have hanswer := Tracker.answer_receive hqualifies r.announcement.source r.heard
      have hstate := Tracker.state_receive hqualifies r.announcement.source r.heard
      rw [hget, Option.bind_none] at hanswer
      rw [Roster.modify_of_get?_eq_none hget] at hstate
      refine ⟨hanswer, ?_⟩
      dsimp only
      rw [hanswer, hstate]
      simp only [uncounted, Tracker.uncounted, henroll]
      rfl
    · exact ⟨rfl, rfl⟩

/-- The call hands a reception to a node that discards it. -/
def Call.isDiscarded (n : Node buckets records) : Call → Bool
  | receive r => n.discards r
  | runSlot _ | advance | stamp _ | sweepIfCycleComplete _ | sweep _ | idle _ | stop
  | setMinRssi _ => false

theorem call_of_isDiscarded {n : Node buckets records} (h : n.tracker.roster.Faithful) {c : Call}
    (hc : c.isDiscarded n = true) :
    (n.call c).2 = .events [] ∧ (n.call c).1.uncounted = n.uncounted := by
  cases c with
  | receive r =>
    obtain ⟨hanswer, hstate⟩ := receive_of_discards h hc
    exact ⟨congrArg (fun a : Option Event => Reply.events a.toList) hanswer, hstate⟩
  | _ => cases hc

/-! ## Runs with and without them -/

/-- The calls of a run, each with the node that it meets. -/
def steps (n : Node buckets records) : List Call → List (Node buckets records × Call)
  | [] => []
  | c :: cs => (n, c) :: steps (n.call c).1 cs

/-- The calls of a run that are no discarded receptions, each with the node that it meets. -/
def remaining (n : Node buckets records) (calls : List Call) :
    List (Node buckets records × Call) :=
  (n.steps calls).filter fun step => !step.2.isDiscarded step.1

/-- The same call is made in both steps and returns the same, and the nodes that it leaves resemble
each other. -/
structure SameStep (s t : Node buckets records × Call) : Prop where
  call_eq : s.2 = t.2
  reply_eq : (s.1.call s.2).2 = (t.1.call t.2).2
  resembles : (s.1.call s.2).1.Resembles (t.1.call t.2).1

theorem SameStep.of_uncounted_eq {m n : Node buckets records} (h : m.uncounted = n.uncounted)
    (c : Call) : SameStep (m, c) (n, c) := by
  obtain ⟨hreply, hstate⟩ := m.call_uncounted c
  obtain ⟨hreply', hstate'⟩ := n.call_uncounted c
  rw [h] at hreply hstate
  exact ⟨rfl, hreply.symm.trans hreply', .of_uncounted_eq (hstate.symm.trans hstate')⟩

/-- A node whose counters agree with an account has a faithful roster, and goes on to do so. -/
theorem Keeps.faithful {n : Node buckets records} {a : Account} (h : n.Keeps a) :
    n.tracker.roster.Faithful := by
  obtain ⟨c, hc⟩ := h.exists_mirrors
  exact hc.holds.faithful

theorem exists_keeps_call {n : Node buckets records} (h : ∃ a, n.Keeps a) (c : Call) :
    ∃ a, (n.call c).1.Keeps a := by
  obtain ⟨a, ha⟩ := h
  exact ⟨_, Station.keeps_call (s := { node := n }) ha (.node c)⟩

/-- A node that resembles another one makes its remaining calls with it, step by step, and resembles
it in the end. -/
theorem steps_remaining (calls : List Call) :
    ∀ {m n : Node buckets records}, (∃ a, n.Keeps a) → m.uncounted = n.uncounted →
      List.Forall₂ SameStep (m.steps ((n.remaining calls).map Prod.snd)) (n.remaining calls) ∧
        (m.run ((n.remaining calls).map Prod.snd)).1.uncounted = (n.run calls).1.uncounted := by
  induction calls with
  | nil => exact fun _ h => ⟨.nil, h⟩
  | cons c calls ih =>
    intro m n hkeeps h
    have hnext := exists_keeps_call hkeeps c
    cases hc : c.isDiscarded n with
    | true =>
      -- Only the run of `n` makes the call, and it moves nothing but counts.
      obtain ⟨a, ha⟩ := hkeeps
      obtain ⟨-, hstate⟩ := call_of_isDiscarded ha.faithful hc
      have hremaining : n.remaining (c :: calls) = (n.call c).1.remaining calls := by
        rw [remaining, steps, List.filter_cons_of_neg (by simp [hc])]
        rfl
      rw [hremaining]
      exact ih hnext (h.trans hstate.symm)
    | false =>
      have hstep := SameStep.of_uncounted_eq h c
      have hremaining : n.remaining (c :: calls) = (n, c) :: (n.call c).1.remaining calls := by
        rw [remaining, steps, List.filter_cons_of_pos (by simp [hc])]
        rfl
      rw [hremaining, List.map_cons]
      obtain ⟨hrest, hend⟩ := ih hnext hstep.resembles.uncounted_eq
      exact ⟨.cons hstep hrest, hend⟩

theorem exists_keeps_of_mem_steps (calls : List Call) :
    ∀ {n : Node buckets records}, (∃ a, n.Keeps a) →
      ∀ step ∈ n.steps calls, ∃ a, step.1.Keeps a := by
  induction calls with
  | nil => exact fun _ _ hmem => absurd hmem List.not_mem_nil
  | cons c calls ih =>
    intro n hkeeps step hmem
    rcases List.mem_cons.mp hmem with rfl | hmem
    · exact hkeeps
    · exact ih (exists_keeps_call hkeeps c) step hmem

/-- **Discarded receptions leave no trace.**  Let any calls be made to a node that has just been
switched on, with any settings.  Discarded receptions return no event.  Without them, each remaining
call returns what it did return, and leaves a node with the same peers, in the same order, with the
same records; in fact nothing but the counts of receptions, of weak and rejected ones, and of peers
turned away tells the two runs apart, then and in the end. -/
theorem run_without_discarded (buckets records : Nat) (id : NodeId) (settings : Settings)
    (calls : List Call) :
    let n : Node buckets records := .start buckets records id settings
    let others := (n.remaining calls).map Prod.snd
    (∀ step ∈ n.steps calls, step.2.isDiscarded step.1 = true →
        (step.1.call step.2).2 = .events []) ∧
      List.Forall₂ SameStep (n.steps others) (n.remaining calls) ∧
      (n.run others).1.Resembles (n.run calls).1 := by
  intro n others
  have hkeeps : ∃ a, n.Keeps a := ⟨_, .start buckets records id settings⟩
  obtain ⟨hsteps, hend⟩ := steps_remaining calls hkeeps rfl
  refine ⟨fun step hmem hdiscarded => ?_, hsteps, .of_uncounted_eq hend⟩
  obtain ⟨a, ha⟩ := exists_keeps_of_mem_steps calls hkeeps step hmem
  exact (call_of_isDiscarded ha.faithful hdiscarded).1

end Node

end PeerBeacon
