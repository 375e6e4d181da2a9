import PeerBeacon.Console.Station
import PeerBeacon.Proofs.Node.Rollover
import PeerBeacon.Proofs.Tracker.Balance

/-!
# The counters of a node

A node counts what happens to it in many places, each count modulo `2 ^ 32`.  An `Account` is what
has happened to it, gathered from the calls made to it and from what they returned, and
`Node.Keeps` says that the counters agree with the account.  Whatever is done to a node keeps it so,
operation by operation, and so does whatever its console asks for.

The number of present peers is no counter: it is found anew by looking at the roster.  That it
agrees with the detections and absences counted is the balance of the tracker
(`Tracker.Mirrors.exists_balance`).

The main statement is `Station.run_accounted`.
-/

namespace PeerBeacon

/-! ## Counting -/

/-- Events are counted by their kind. -/
theorem Counters.countAll_eq (events : List Event) :
    ∀ c : Counters, c.countAll events =
      { c with
        detections := c.detections + UInt32.ofNat (tally .detect events)
        leaves := c.leaves + UInt32.ofNat (tally .leave events)
        absences := c.absences + UInt32.ofNat (tally .absent events) } := by
  induction events with
  | nil =>
    intro c
    simp [countAll, tally]
  | cons e events ih =>
    intro c
    rw [countAll, List.foldl_cons]
    refine (ih (c.count e)).trans ?_
    cases e <;> simp [count, tally_cons, Event.kind, Node.add_one_add_ofNat]

/-- The announcement could concern a peer, but it is too weak. -/
def Reception.isWeak (own : NodeId) (minRssi : Int16) (r : Reception) : Bool :=
  r.announcement.hasValidSource && r.announcement.source != own && decide (r.rssi < minRssi)

/-! ## Accounts -/

/-- What has happened to a node. -/
structure Account where
  /-- The number of announcements that the radio delivered. -/
  receptions : Nat := 0
  /-- The number of those that could concern a peer but were too weak. -/
  weak : Nat := 0
  /-- The announcements that were asked for, in order. -/
  sent : List Announcement := []
  /-- The events that were returned, in order. -/
  events : List Event := []

namespace Node

variable {buckets records : Nat}

/-- The counters of a node agree with what has happened to it. -/
structure Keeps (n : Node buckets records) (a : Account) : Prop where
  exists_mirrors : ∃ c, n.tracker.Mirrors c
  receptions_eq : n.counters.received + n.counters.rejected = UInt32.ofNat a.receptions
  weak_eq : n.counters.weak = UInt32.ofNat a.weak
  sent_eq : n.counters.sent = UInt32.ofNat a.sent.length
  sequence_eq : n.scheduler.sequence = UInt32.ofNat a.sent.length
  /-- The announcements are numbered from one on. -/
  numbered : a.sent.map Announcement.sequence =
    (List.range a.sent.length).map fun k => UInt32.ofNat (k + 1)
  detections_eq : n.counters.detections = UInt32.ofNat (tally .detect a.events)
  leaves_eq : n.counters.leaves = UInt32.ofNat (tally .leave a.events)
  absences_eq : n.counters.absences = UInt32.ofNat (tally .absent a.events)
  balance : tally .detect a.events = tally .absent a.events + n.presentCount

theorem isWeak_eq (n : Node buckets records) (r : Reception) :
    r.isWeak n.id n.tracker.thresholds.minRssi =
      (!n.rejects r && !n.tracker.thresholds.qualifies r.rssi) := by
  have hlt : decide (r.rssi < n.tracker.thresholds.minRssi) =
      !n.tracker.thresholds.qualifies r.rssi := by
    rw [Thresholds.qualifies, ← decide_not]
    exact decide_eq_decide.mpr Int16.not_le.symm
  rw [Reception.isWeak, rejects, hlt, Bool.not_or, Bool.not_not]
  rfl

namespace Keeps

variable {n m : Node buckets records} {a : Account}

theorem start (buckets records : Nat) (id : NodeId) (settings : Settings) :
    (start buckets records id settings).Keeps {} where
  exists_mirrors := ⟨_, .start buckets records settings.thresholds⟩
  receptions_eq := rfl
  weak_eq := rfl
  sent_eq := rfl
  sequence_eq := rfl
  numbered := rfl
  detections_eq := rfl
  leaves_eq := rfl
  absences_eq := rfl
  balance := by
    have hnobody := Tracker.detectedCount_start buckets records settings.thresholds
    rw [presentCount, Node.start, hnobody]
    rfl

/-- What is done to the schedule alone is not counted. -/
theorem of_eq (h : n.Keeps a) (tracker_eq : m.tracker = n.tracker)
    (counters_eq : m.counters = n.counters)
    (sequence_eq : m.scheduler.sequence = n.scheduler.sequence) : m.Keeps a where
  exists_mirrors := tracker_eq ▸ h.exists_mirrors
  receptions_eq := counters_eq ▸ h.receptions_eq
  weak_eq := counters_eq ▸ h.weak_eq
  sent_eq := counters_eq ▸ h.sent_eq
  sequence_eq := sequence_eq ▸ h.sequence_eq
  numbered := h.numbered
  detections_eq := counters_eq ▸ h.detections_eq
  leaves_eq := counters_eq ▸ h.leaves_eq
  absences_eq := counters_eq ▸ h.absences_eq
  balance := by
    rw [presentCount, tracker_eq]
    exact h.balance

/-- A call to the tracker, whose events are counted. -/
theorem track (h : n.Keeps a) (call : Tracker.Call)
    (tracker_eq : m.tracker = (n.tracker.call call).1)
    (counters_eq : m.counters = n.counters.countAll (n.tracker.call call).2)
    (sequence_eq : m.scheduler.sequence = n.scheduler.sequence) :
    m.Keeps { a with events := a.events ++ (n.tracker.call call).2 } := by
  obtain ⟨c, hc⟩ := h.exists_mirrors
  obtain ⟨d, hd, hbalance⟩ := hc.exists_balance call
  rw [Counters.countAll_eq] at counters_eq
  exact {
    exists_mirrors := ⟨d, tracker_eq ▸ hd⟩
    receptions_eq := by
      rw [counters_eq]
      exact h.receptions_eq
    weak_eq := by
      rw [counters_eq]
      exact h.weak_eq
    sent_eq := by
      rw [counters_eq]
      exact h.sent_eq
    sequence_eq := sequence_eq ▸ h.sequence_eq
    numbered := h.numbered
    detections_eq := by
      rw [counters_eq, tally_append, UInt32.ofNat_add, ← h.detections_eq]
    leaves_eq := by
      rw [counters_eq, tally_append, UInt32.ofNat_add, ← h.leaves_eq]
    absences_eq := by
      rw [counters_eq, tally_append, UInt32.ofNat_add, ← h.absences_eq]
    balance := by
      have hbefore := h.balance
      rw [presentCount] at hbefore
      rw [presentCount, tracker_eq, tally_append, tally_append]
      omega }

theorem unsent (h : n.Keeps a) : n.Keeps { a with sent := a.sent ++ [] } := by
  rw [List.append_nil]
  exact h

theorem unreported (h : n.Keeps a) : n.Keeps { a with events := a.events ++ [] } := by
  rw [List.append_nil]
  exact h

/-! ### Receptions -/

/-- A reception that is rejected. -/
theorem reject (h : n.Keeps a) :
    Keeps { n with counters.rejected := n.counters.rejected + 1 }
      { a with receptions := a.receptions + 1 } :=
  { h with
    receptions_eq := by
      rw [UInt32.ofNat_add, ← h.receptions_eq, UInt32.add_assoc]
      rfl }

/-- A reception that is accepted. -/
theorem accept (h : n.Keeps a) :
    Keeps { n with counters.received := n.counters.received + 1 }
      { a with receptions := a.receptions + 1 } :=
  { h with
    receptions_eq := by
      change n.counters.received + 1 + n.counters.rejected = UInt32.ofNat (a.receptions + 1)
      rw [UInt32.ofNat_add, ← h.receptions_eq, UInt32.add_assoc, UInt32.add_assoc,
        UInt32.add_comm 1]
      rfl }

/-- An accepted reception that is too weak. -/
theorem weaken (h : n.Keeps a) :
    Keeps { n with counters.weak := n.counters.weak + 1 } { a with weak := a.weak + 1 } :=
  { h with
    weak_eq := by
      rw [UInt32.ofNat_add, ← h.weak_eq]
      rfl }

/-- Every reception is accepted or rejected, and those that are accepted may be too weak. -/
theorem receive (h : n.Keeps a) (r : Reception) :
    (n.receive r).state.Keeps
      { a with
        receptions := a.receptions + 1
        weak := a.weak + if r.isWeak n.id n.tracker.thresholds.minRssi then 1 else 0
        events := a.events ++ (n.receive r).answer.toList } := by
  rw [isWeak_eq, Node.receive]
  cases hrejects : n.rejects r with
  | true =>
    rw [if_pos rfl, Option.toList_none, List.append_nil]
    exact h.reject
  | false =>
    cases hqualifies : n.tracker.thresholds.qualifies r.rssi with
    | true =>
      exact h.accept.track (.receive r.announcement.source r.rssi r.heard) rfl rfl rfl
    | false =>
      rw [if_neg Bool.false_ne_true, if_neg Bool.false_ne_true, Option.toList_none,
        List.append_nil]
      exact h.accept.weaken

/-! ### Announcements -/

/-- Announcements are counted and numbered. -/
theorem stamped (h : n.Keeps a) (clock : Nat → Tick) (frames : Nat) :
    (n.stamped frames).Keeps { a with sent := a.sent ++ n.announcements clock frames } where
  exists_mirrors := h.exists_mirrors
  receptions_eq := h.receptions_eq
  weak_eq := h.weak_eq
  sent_eq := by
    rw [List.length_append, length_announcements, UInt32.ofNat_add, ← h.sent_eq]
    rfl
  sequence_eq := by
    rw [List.length_append, length_announcements, UInt32.ofNat_add, ← h.sequence_eq]
    rfl
  numbered := by
    rw [List.map_append, List.length_append, length_announcements, List.range_add, List.map_append,
      ← h.numbered, announcements, List.map_map, List.map_map]
    refine congrArg _ (List.map_congr_left fun k _ => ?_)
    simp only [Function.comp_apply]
    rw [h.sequence_eq, ← UInt32.ofNat_add, Nat.add_assoc]
  detections_eq := h.detections_eq
  leaves_eq := h.leaves_eq
  absences_eq := h.absences_eq
  balance := h.balance

/-! ### Sweeps -/

theorem sweep (h : n.Keeps a) (now : Tick) :
    (n.sweep now).state.Keeps { a with events := a.events ++ (n.sweep now).answer } :=
  h.track (.sweep now) rfl rfl rfl

theorem sweepIfCycleComplete (h : n.Keeps a) (now : Tick) :
    (n.sweepIfCycleComplete now).state.Keeps
      { a with events := a.events ++ (n.sweepIfCycleComplete now).answer } := by
  rw [Node.sweepIfCycleComplete]
  split
  · rw [List.append_nil]
    exact h
  · have hmarked : Keeps { n with sweptCycles := n.scheduler.cycles } a := h.of_eq rfl rfl rfl
    exact hmarked.sweep now

theorem idle (h : n.Keeps a) (now : Tick) :
    (n.idle now).state.Keeps { a with events := a.events ++ (n.idle now).answer } := by
  rw [Node.idle]
  split
  · rw [List.append_nil]
    exact h
  · have hmarked : Keeps { n with idleSweptAt := some now } a := h.of_eq rfl rfl rfl
    exact hmarked.sweep now

/-! ### The schedule and the signal threshold -/

theorem advance (h : n.Keeps a) : n.advance.2.Keeps a :=
  h.of_eq rfl rfl rfl

theorem stop (h : n.Keeps a) : n.stop.Keeps a :=
  h.of_eq rfl rfl rfl

theorem setMinRssi (h : n.Keeps a) (minRssi : Int16) :
    (n.setMinRssi minRssi).state.Keeps { a with events := a.events ++ [] } :=
  h.track (.setMinRssi minRssi) rfl rfl rfl

/-- A full slot sends announcements and may sweep. -/
theorem runSlot (h : n.Keeps a) (clock : SlotClock) :
    (n.runSlot clock).state.Keeps
      { a with
        sent := a.sent ++ (n.runSlot clock).answer.sent
        events := a.events ++ (n.runSlot clock).answer.events } := by
  rw [state_runSlot, sent_runSlot, events_runSlot]
  exact (h.advance.stamped clock.beforeFrame n.scheduler.action.frames).sweepIfCycleComplete _

end Keeps

/-! ## What the account says of the node -/

namespace Keeps

variable {n : Node buckets records} {a : Account}

theorem sequence_eq_of_getElem? (h : n.Keeps a) {k : Nat} {b : Announcement}
    (hb : a.sent[k]? = some b) : b.sequence = UInt32.ofNat (k + 1) := by
  have hnumber : (a.sent.map Announcement.sequence)[k]? = some b.sequence := by
    rw [List.getElem?_map, hb, Option.map_some]
  have hk : k < a.sent.length := (List.getElem?_eq_some_iff.mp hb).1
  rw [h.numbered, List.getElem?_map, List.getElem?_range hk, Option.map_some] at hnumber
  exact (Option.some.inj hnumber).symm

theorem detections_eq_add (h : n.Keeps a) :
    n.counters.detections = n.counters.absences + UInt32.ofNat n.presentCount := by
  rw [h.detections_eq, h.balance, UInt32.ofNat_add, h.absences_eq]

theorem presentCount_le (h : n.Keeps a) :
    n.presentCount ≤ n.trackedCount ∧ n.trackedCount ≤ min buckets records := by
  obtain ⟨c, hc⟩ := h.exists_mirrors
  exact hc.detectedCount_le

end Keeps

/-! ## The signal threshold in force -/

section Thresholds

variable (n : Node buckets records)

theorem thresholds_receive (r : Reception) :
    (n.receive r).state.tracker.thresholds = n.tracker.thresholds := by
  unfold receive
  split
  · rfl
  · split
    · exact n.tracker.thresholds_receive r.announcement.source r.rssi r.heard
    · rfl

theorem thresholds_sweepIfCycleComplete (now : Tick) :
    (n.sweepIfCycleComplete now).state.tracker.thresholds = n.tracker.thresholds := by
  unfold sweepIfCycleComplete
  split <;> rfl

theorem thresholds_idle (now : Tick) :
    (n.idle now).state.tracker.thresholds = n.tracker.thresholds := by
  unfold idle
  split <;> rfl

theorem thresholds_runSlot (clock : SlotClock) :
    (n.runSlot clock).state.tracker.thresholds = n.tracker.thresholds := by
  rw [state_runSlot, thresholds_sweepIfCycleComplete]
  rfl

end Thresholds

/-! ## Calls -/

/-- The announcements in a reply, in order. -/
def Reply.announcements : Reply → List Announcement
  | announcement a => [a]
  | report r => r.sent
  | done | action _ | events _ => []

/-- The events in a reply, in order. -/
def Reply.reported : Reply → List Event
  | events es => es
  | report r => r.events
  | done | action _ | announcement _ => []

end Node

namespace Station

variable {buckets records : Nat}

/-- Something that can be done to a node at its console. -/
inductive Call where
  /-- The node is called. -/
  | node (call : Node.Call)
  /-- The console asks for something. -/
  | command (c : Command)

/-- Makes a call. -/
def call (s : Station buckets records) : Call → Station buckets records × Node.Reply
  | .node call =>
    let (node, reply) := s.node.call call
    ({ s with node }, reply)
  | .command c => ((s.perform c).state, .done)

/-- Makes calls one after the other and collects what they return. -/
def run (s : Station buckets records) :
    List Call → Station buckets records × List Node.Reply
  | [] => (s, [])
  | c :: cs =>
    let (t, reply) := s.call c
    let (u, replies) := run t cs
    (u, reply :: replies)

namespace Call

/-- What the radio delivers. -/
def reception? : Call → Option Reception
  | node (.receive r) => some r
  | node _ | command _ => none

/-- The signal threshold in force after a call. -/
def adjust (minRssi : Int16) : Call → Int16
  | node (.setMinRssi minRssi) | command (.setRssi minRssi) => minRssi
  | node _ | command _ => minRssi

end Call

/-- The number of announcements that the radio delivers over some calls. -/
def receptions (calls : List Call) : Nat :=
  (calls.filterMap Call.reception?).length

/-- The number of those that could concern a peer of the node `own` but were below the signal
threshold then in force; it is `minRssi` at first. -/
def weakReceptions (own : NodeId) : (minRssi : Int16) → List Call → Nat
  | _, [] => 0
  | minRssi, call :: calls =>
    (if call.reception?.any (Reception.isWeak own minRssi) then 1 else 0) +
      weakReceptions own (call.adjust minRssi) calls

/-- A node at its console keeps its id. -/
theorem id_call (s : Station buckets records) (call : Call) :
    (s.call call).1.node.id = s.node.id := by
  cases call with
  | node call =>
    cases call with
    | receive r => exact congrArg Scheduler.nodeId (s.node.scheduler_receive r)
    | runSlot clock =>
      exact (congrArg Scheduler.nodeId (s.node.scheduler_runSlot clock)).trans rfl
    | sweepIfCycleComplete now =>
      exact congrArg Scheduler.nodeId (s.node.scheduler_sweepIfCycleComplete now)
    | idle now => exact congrArg Scheduler.nodeId (s.node.scheduler_idle now)
    | advance => rfl
    | stamp now => rfl
    | sweep now => rfl
    | stop => rfl
    | setMinRssi minRssi => rfl
  | command c => cases c <;> rfl

/-- Nothing but a new setting moves the signal threshold. -/
theorem minRssi_call (s : Station buckets records) (call : Call) :
    (s.call call).1.node.tracker.thresholds.minRssi =
      call.adjust s.node.tracker.thresholds.minRssi := by
  cases call with
  | node call =>
    cases call with
    | receive r => exact congrArg Thresholds.minRssi (s.node.thresholds_receive r)
    | runSlot clock => exact congrArg Thresholds.minRssi (s.node.thresholds_runSlot clock)
    | sweepIfCycleComplete now =>
      exact congrArg Thresholds.minRssi (s.node.thresholds_sweepIfCycleComplete now)
    | idle now => exact congrArg Thresholds.minRssi (s.node.thresholds_idle now)
    | advance => rfl
    | stamp now => rfl
    | sweep now => rfl
    | stop => rfl
    | setMinRssi minRssi => rfl
  | command c => cases c <;> rfl

/-- Each call is entered in the account. -/
theorem keeps_call {s : Station buckets records} {a : Account} (h : s.node.Keeps a) (call : Call) :
    (s.call call).1.node.Keeps
      { receptions := a.receptions + receptions [call]
        weak := a.weak + weakReceptions s.node.id s.node.tracker.thresholds.minRssi [call]
        sent := a.sent ++ (s.call call).2.announcements
        events := a.events ++ (s.call call).2.reported } := by
  cases call with
  | node call =>
    cases call with
    | receive r => exact (h.receive r).unsent
    | runSlot clock => exact h.runSlot clock
    | advance => exact h.advance.unsent.unreported
    | stamp now => exact (h.stamped (fun _ => now) 1).unreported
    | sweepIfCycleComplete now => exact (h.sweepIfCycleComplete now).unsent
    | sweep now => exact (h.sweep now).unsent
    | idle now => exact (h.idle now).unsent
    | stop => exact h.stop.unsent.unreported
    | setMinRssi minRssi => exact (h.setMinRssi minRssi).unsent
  | command c =>
    cases c with
    | start => exact h.unsent.unreported
    | stop => exact h.stop.unsent.unreported
    | status => exact h.unsent.unreported
    | setRssi minRssi => exact (h.setMinRssi minRssi).unsent
    | setBuzzer enabled => exact h.unsent.unreported

/-- A run is entered in the account call by call. -/
theorem keeps_run (calls : List Call) :
    ∀ {s : Station buckets records} {a : Account}, s.node.Keeps a →
      (s.run calls).1.node.Keeps
        { receptions := a.receptions + receptions calls
          weak := a.weak + weakReceptions s.node.id s.node.tracker.thresholds.minRssi calls
          sent := a.sent ++ (s.run calls).2.flatMap Node.Reply.announcements
          events := a.events ++ (s.run calls).2.flatMap Node.Reply.reported } := by
  induction calls with
  | nil => exact fun h => h.unsent.unreported
  | cons call calls ih =>
    intro s a h
    have hrest := ih (keeps_call h call)
    rw [id_call, minRssi_call] at hrest
    have hreceptions : receptions (call :: calls) = receptions [call] + receptions calls := by
      rw [receptions, ← List.singleton_append, List.filterMap_append, List.length_append]
      rfl
    rw [hreceptions, ← Nat.add_assoc, weakReceptions, ← Nat.add_assoc, run, List.flatMap_cons,
      List.flatMap_cons, ← List.append_assoc, ← List.append_assoc]
    exact hrest

/-- **Every counter tells what happened.**  After any calls to a node that has just been switched
on and any commands from its console, with any settings and whatever the clock readings, the
counters say, modulo `2 ^ 32`, how many announcements were delivered, how many of them were too
weak, how many were sent, and how many events of each kind were returned.  The announcements that
were sent are numbered from one on, and the detections are the absences and the peers present. -/
theorem run_accounted (buckets records : Nat) (id : NodeId) (settings : Settings) (running : Bool)
    (calls : List Call) :
    let outcome := run { node := .start buckets records id settings, running } calls
    let node := outcome.1.node
    let sent := outcome.2.flatMap Node.Reply.announcements
    let events := outcome.2.flatMap Node.Reply.reported
    node.counters.received + node.counters.rejected = UInt32.ofNat (receptions calls) ∧
      node.counters.weak =
        UInt32.ofNat (weakReceptions id settings.thresholds.minRssi calls) ∧
      node.counters.sent = UInt32.ofNat sent.length ∧
      (∀ k a, sent[k]? = some a → a.sequence = UInt32.ofNat (k + 1)) ∧
      node.counters.detections = UInt32.ofNat (tally .detect events) ∧
      node.counters.leaves = UInt32.ofNat (tally .leave events) ∧
      node.counters.absences = UInt32.ofNat (tally .absent events) ∧
      node.counters.detections = node.counters.absences + UInt32.ofNat node.presentCount ∧
      node.presentCount ≤ node.trackedCount ∧ node.trackedCount ≤ min buckets records := by
  intro outcome node sent events
  have hrun := keeps_run (s := { node := .start buckets records id settings, running }) calls
    (.start buckets records id settings)
  have hreceptions : node.counters.received + node.counters.rejected =
      UInt32.ofNat (0 + receptions calls) := hrun.receptions_eq
  have hweak : node.counters.weak =
      UInt32.ofNat (0 + weakReceptions id settings.thresholds.minRssi calls) := hrun.weak_eq
  rw [Nat.zero_add] at hreceptions hweak
  exact ⟨hreceptions, hweak, hrun.sent_eq, fun k a => hrun.sequence_eq_of_getElem?,
    hrun.detections_eq, hrun.leaves_eq, hrun.absences_eq, hrun.detections_eq_add,
    hrun.presentCount_le⟩

end Station

end PeerBeacon
