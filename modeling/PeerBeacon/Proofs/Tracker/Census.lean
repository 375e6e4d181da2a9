import PeerBeacon.Proofs.Tracker.Holds

/-!
# A tracker keeps a census

What a tracker does can be said peer by peer.  A `Census` is a directory of peers that know nothing
of each other, with the thresholds and a count of those turned away; `Census.Step` gives its rules.
A sweep goes through all peers once each, and only the order of its report is left open.

Every sequence of calls to a tracker, whatever the clock readings, with the events that it returns,
is one of the census (`Tracker.run_refines_census`), and what can be seen of the tracker afterwards
is what the census holds (`Tracker.Reflects`).
-/

namespace PeerBeacon

namespace Tracker

/-! ## Calls and their answers -/

/-- A call to a tracker. -/
inductive Call where
  /-- An announcement from `id` is received. -/
  | receive (id : NodeId) (rssi : Int16) (heard : Tick)
  /-- Peers are aged. -/
  | sweep (now : Tick)
  /-- The signal threshold is moved. -/
  | setMinRssi (minRssi : Int16)

variable {buckets records : Nat}

/-- Makes a call and returns the events that it reports. -/
def call (t : Tracker buckets records) : Call → Tracker buckets records × List Event
  | .receive id rssi heard =>
    let outcome := t.receive id rssi heard
    (outcome.state, outcome.answer.toList)
  | .sweep now =>
    let outcome := t.sweep now
    (outcome.state, outcome.answer)
  | .setMinRssi minRssi => (t.setMinRssi minRssi, [])

/-- Makes calls one after the other and collects the reports. -/
def run (t : Tracker buckets records) : List Call → Tracker buckets records × List (List Event)
  | [] => (t, [])
  | c :: cs =>
    let (u, events) := t.call c
    let (v, reports) := run u cs
    (v, events :: reports)

theorem run_append (calls later : List Call) :
    ∀ t : Tracker buckets records,
      t.run (calls ++ later) =
        (((t.run calls).1.run later).1, (t.run calls).2 ++ ((t.run calls).1.run later).2) := by
  induction calls with
  | nil => exact fun t => rfl
  | cons call calls ih =>
    intro t
    rw [List.cons_append, run]
    dsimp only
    rw [ih]
    rfl

end Tracker

/-! ## The plain account -/

/-- Peers that know nothing of each other, and the number of those turned away, modulo `2 ^ 32`. -/
structure Census where
  peers : Directory Peer
  thresholds : Thresholds
  refusals : UInt32

namespace Census

/-- A census of nobody. -/
def start (thresholds : Thresholds) : Census where
  peers := .empty
  thresholds := thresholds
  refusals := 0

/-- The number of peers that have been reported as present and not yet as absent. -/
def detectedCount (c : Census) : Nat :=
  {id ∈ c.peers.ids | (c.peers.get? id).any Peer.isDetected}.card

/-- The event that is due for a peer at a sweep. -/
def due (c : Census) (now : Tick) (id : NodeId) : Option Event :=
  (c.peers.get? id).bind (Peer.due c.thresholds now id)

/-- The rules of a census with room for `capacity` peers. -/
inductive Step (capacity : Nat) (c : Census) : Tracker.Call → List Event → Census → Prop where
  /-- A weak reception changes nothing. -/
  | weak {id : NodeId} {rssi : Int16} {heard : Tick} (h : c.thresholds.qualifies rssi = false) :
      Step capacity c (.receive id rssi heard) [] c
  /-- A known peer is heard. -/
  | hear {id : NodeId} {rssi : Int16} {heard : Tick} {p : Peer}
      (h : c.thresholds.qualifies rssi = true) (known : c.peers.get? id = some p) :
      Step capacity c (.receive id rssi heard)
        (p.hearEvent c.thresholds.detectAfter heard id).toList
        { c with peers := c.peers.modify id (Peer.hear c.thresholds.detectAfter heard) }
  /-- A new peer for which there is room is nearing, and is heard at once. -/
  | meet {id : NodeId} {rssi : Int16} {heard : Tick} (h : c.thresholds.qualifies rssi = true)
      (hid : id ≠ NodeId.reserved) (unknown : id ∉ c.peers.ids) (room : c.peers.size < capacity) :
      Step capacity c (.receive id rssi heard)
        ((Peer.nearing heard heard).hearEvent c.thresholds.detectAfter heard id).toList
        { c with
          peers := c.peers.insert id hid
            ((Peer.nearing heard heard).hear c.thresholds.detectAfter heard) }
  /-- A new peer for which there is no room is turned away and counted. -/
  | refuse {id : NodeId} {rssi : Int16} {heard : Tick} (h : c.thresholds.qualifies rssi = true)
      (hid : id ≠ NodeId.reserved) (unknown : id ∉ c.peers.ids) (full : capacity ≤ c.peers.size) :
      Step capacity c (.receive id rssi heard) [] { c with refusals := c.refusals + 1 }
  /-- The reserved id is no peer and is not counted. -/
  | ignore {rssi : Int16} {heard : Tick} :
      Step capacity c (.receive NodeId.reserved rssi heard) [] c
  /-- A sweep ages each peer by itself and reports in some order. -/
  | sweep {now : Tick} {order : List NodeId} (h : c.peers.Listing order) :
      Step capacity c (.sweep now) (order.filterMap (c.due now))
        { c with peers := c.peers.filterMap fun _ => Peer.age c.thresholds now }
  /-- The signal threshold moves. -/
  | setMinRssi {minRssi : Int16} :
      Step capacity c (.setMinRssi minRssi) []
        { c with thresholds := { c.thresholds with minRssi } }

/-- The runs of a census, with the events that it reports. -/
inductive Run (capacity : Nat) :
    Census → List Tracker.Call → List (List Event) → Census → Prop where
  | nil {c : Census} : Run capacity c [] [] c
  | cons {c d e : Census} {call : Tracker.Call} {events : List Event}
      {calls : List Tracker.Call} {reports : List (List Event)}
      (step : Step capacity c call events d) (rest : Run capacity d calls reports e) :
      Run capacity c (call :: calls) (events :: reports) e

end Census

namespace Tracker

variable {buckets records : Nat}

/-- What can be seen of a tracker is what the census holds. -/
structure Reflects (t : Tracker buckets records) (c : Census) : Prop where
  thresholds_eq : t.thresholds = c.thresholds
  get?_eq : ∀ id, t.roster.get? id = (c.peers.get? id).map (Peer.record id)
  listing : c.peers.Listing t.roster.ids
  count_eq : t.roster.count = c.peers.size
  size_le : c.peers.size ≤ min buckets records
  refusals_eq : t.roster.refusals = c.refusals
  detectedCount_eq : t.detectedCount = c.detectedCount
  /-- The next sweep reports in index order. -/
  answer_sweep : ∀ now, (t.sweep now).answer = t.roster.ids.filterMap (c.due now)

/-- A tracker whose roster holds the peers of a census, with the same thresholds and refusals. -/
structure Mirrors (t : Tracker buckets records) (c : Census) : Prop where
  holds : t.roster.Holds c.peers
  thresholds_eq : t.thresholds = c.thresholds
  refusals_eq : t.roster.refusals = c.refusals

namespace Mirrors

variable {t : Tracker buckets records} {c : Census}

theorem start (buckets records : Nat) (thresholds : Thresholds) :
    (Tracker.start buckets records thresholds).Mirrors (.start thresholds) where
  holds := Roster.Holds.empty buckets records
  thresholds_eq := rfl
  refusals_eq := rfl

theorem detectedCount_eq (h : t.Mirrors c) : t.detectedCount = c.detectedCount := by
  have hany : ∀ id, ((t.roster.get? id).map Record.isDetected).getD false =
      (c.peers.get? id).any Peer.isDetected := by
    intro id
    rw [h.holds.get?_eq]
    cases c.peers.get? id with
    | none => rfl
    | some p => exact Peer.isDetected_record id p
  have hcount : t.detectedCount =
      t.roster.ids.countP fun id => (c.peers.get? id).any Peer.isDetected := by
    rw [detectedCount, List.countP_filterMap]
    exact congrArg (fun p => List.countP p t.roster.ids) (funext hany)
  obtain ⟨hnodup, hmem⟩ := h.holds.listing
  have hids : t.roster.ids.toFinset = c.peers.ids :=
    Finset.ext fun id => List.mem_toFinset.trans (hmem id)
  rw [hcount, Census.detectedCount, ← hids, List.countP_eq_length_filter,
    ← List.toFinset_filter, List.toFinset_card_of_nodup (hnodup.filter _)]

theorem answer_sweep (h : t.Mirrors c) (now : Tick) :
    (t.sweep now).answer = t.roster.ids.filterMap (c.due now) := by
  refine (dueEvents_eq h.holds now).trans ?_
  rw [h.thresholds_eq]
  rfl

theorem reflects (h : t.Mirrors c) : t.Reflects c where
  thresholds_eq := h.thresholds_eq
  get?_eq := h.holds.get?_eq
  listing := h.holds.listing
  count_eq := h.holds.count_eq
  size_le := by
    rw [← h.holds.count_eq]
    exact h.holds.faithful.count_le_capacity
  refusals_eq := h.refusals_eq
  detectedCount_eq := h.detectedCount_eq
  answer_sweep := h.answer_sweep

/-- A reception from a known peer is a step of the census. -/
theorem exists_step_hear (h : t.Mirrors c) {id : NodeId} {rssi : Int16} (heard : Tick) {p : Peer}
    (hq : c.thresholds.qualifies rssi = true) (hp : c.peers.get? id = some p) :
    ∃ d, Census.Step (min buckets records) c (.receive id rssi heard)
        (t.receive id rssi heard).answer.toList d ∧ (t.receive id rssi heard).state.Mirrors d := by
  have hknown : id ∈ c.peers.ids := (c.peers.mem_ids id).mpr (by rw [hp]; rfl)
  have henroll := h.holds.enroll_of_known hknown heard
  have henrolled : (t.roster.enroll id heard).state.Holds c.peers := henroll ▸ h.holds
  obtain ⟨hholds, hrefusals, hanswer⟩ :=
    receive_of_heard (h.thresholds_eq ▸ hq) henrolled hp
  rw [h.thresholds_eq] at hholds hanswer
  rw [hanswer]
  refine ⟨_, .hear hq hp, hholds, (thresholds_receive ..).trans h.thresholds_eq, ?_⟩
  rw [hrefusals, henroll]
  exact h.refusals_eq

/-- A reception from a new peer for which there is room is a step of the census. -/
theorem exists_step_meet (h : t.Mirrors c) {id : NodeId} {rssi : Int16} (heard : Tick)
    (hq : c.thresholds.qualifies rssi = true) (hid : id ≠ NodeId.reserved)
    (hnew : id ∉ c.peers.ids) (hroom : c.peers.size < min buckets records) :
    ∃ d, Census.Step (min buckets records) c (.receive id rssi heard)
        (t.receive id rssi heard).answer.toList d ∧ (t.receive id rssi heard).state.Mirrors d := by
  obtain ⟨henrolled, hkept⟩ := h.holds.enroll_of_room hid hnew hroom heard
  obtain ⟨hholds, hrefusals, hanswer⟩ :=
    receive_of_heard (h.thresholds_eq ▸ hq) henrolled (if_pos rfl)
  rw [h.thresholds_eq, Directory.modify_insert] at hholds
  rw [h.thresholds_eq] at hanswer
  rw [hanswer]
  exact ⟨_, .meet hq hid hnew hroom, hholds, (thresholds_receive ..).trans h.thresholds_eq,
    hrefusals.trans (hkept.trans h.refusals_eq)⟩

/-- A reception from a new peer for which there is no room is a step of the census. -/
theorem exists_step_refuse (h : t.Mirrors c) {id : NodeId} {rssi : Int16} (heard : Tick)
    (hq : c.thresholds.qualifies rssi = true) (hid : id ≠ NodeId.reserved)
    (hnew : id ∉ c.peers.ids) (hfull : min buckets records ≤ c.peers.size) :
    ∃ d, Census.Step (min buckets records) c (.receive id rssi heard)
        (t.receive id rssi heard).answer.toList d ∧ (t.receive id rssi heard).state.Mirrors d := by
  obtain ⟨henrolled, hcounted⟩ := h.holds.enroll_of_full hid hnew hfull heard
  have hnone : (t.roster.enroll id heard).state.get? id = none := by
    rw [henrolled.get?_eq, Directory.get?_eq_none_iff.mpr hnew, Option.map_none]
  obtain ⟨hroster, hanswer⟩ := receive_of_unheard (h.thresholds_eq ▸ hq) hnone
  rw [hanswer]
  refine ⟨_, .refuse hq hid hnew hfull, ?_, (thresholds_receive ..).trans h.thresholds_eq, ?_⟩
  · rw [hroster]
    exact henrolled
  · rw [hroster, hcounted, h.refusals_eq]

/-- A reception from the reserved id is a step of the census. -/
theorem exists_step_ignore (h : t.Mirrors c) {rssi : Int16} (heard : Tick)
    (hq : c.thresholds.qualifies rssi = true) :
    ∃ d, Census.Step (min buckets records) c (.receive NodeId.reserved rssi heard)
        (t.receive NodeId.reserved rssi heard).answer.toList d ∧
          (t.receive NodeId.reserved rssi heard).state.Mirrors d := by
  obtain ⟨hroster, hanswer⟩ := receive_reserved h.holds (h.thresholds_eq ▸ hq) heard
  rw [hanswer]
  refine ⟨c, .ignore, ?_, (thresholds_receive ..).trans h.thresholds_eq, ?_⟩
  · rw [hroster]
    exact h.holds
  · rw [hroster]
    exact h.refusals_eq

/-- Every reception is a step of the census. -/
theorem exists_step_receive (h : t.Mirrors c) (id : NodeId) (rssi : Int16) (heard : Tick) :
    ∃ d, Census.Step (min buckets records) c (.receive id rssi heard)
        (t.receive id rssi heard).answer.toList d ∧ (t.receive id rssi heard).state.Mirrors d := by
  cases hq : c.thresholds.qualifies rssi with
  | false =>
    rw [receive_of_not_qualifies t id heard (h.thresholds_eq ▸ hq)]
    exact ⟨c, .weak hq, h⟩
  | true =>
    cases hp : c.peers.get? id with
    | some p => exact h.exists_step_hear heard hq hp
    | none =>
      have hnew := Directory.get?_eq_none_iff.mp hp
      by_cases hid : id = NodeId.reserved
      · subst hid
        exact h.exists_step_ignore heard hq
      · rcases Nat.lt_or_ge c.peers.size (min buckets records) with hroom | hfull
        · exact h.exists_step_meet heard hq hid hnew hroom
        · exact h.exists_step_refuse heard hq hid hnew hfull

/-- A sweep is a step of the census that reports in index order. -/
theorem exists_step_sweep (h : t.Mirrors c) (now : Tick) :
    ∃ d, Census.Step (min buckets records) c (.sweep now) (t.sweep now).answer d ∧
      (t.sweep now).state.Mirrors d := by
  obtain ⟨hholds, hrefusals⟩ := sweep_holds h.holds now
  rw [h.thresholds_eq] at hholds
  rw [h.answer_sweep]
  exact ⟨_, .sweep h.holds.listing, hholds, h.thresholds_eq, hrefusals.trans h.refusals_eq⟩

/-- Each call to a tracker is a step of the census. -/
theorem exists_step (h : t.Mirrors c) (call : Call) :
    ∃ d, Census.Step (min buckets records) c call (t.call call).2 d ∧
      (t.call call).1.Mirrors d := by
  cases call with
  | receive id rssi heard => exact h.exists_step_receive id rssi heard
  | sweep now => exact h.exists_step_sweep now
  | setMinRssi minRssi =>
    refine ⟨_, .setMinRssi, h.holds, ?_, h.refusals_eq⟩
    rw [Tracker.call, setMinRssi, h.thresholds_eq]

/-- Every sequence of calls to a tracker is a run of the census. -/
theorem exists_run (calls : List Call) :
    ∀ {t : Tracker buckets records} {c : Census}, t.Mirrors c →
      ∃ d, Census.Run (min buckets records) c calls (t.run calls).2 d ∧
        (t.run calls).1.Mirrors d := by
  induction calls with
  | nil => exact fun {t c} h => ⟨c, .nil, h⟩
  | cons call calls ih =>
    intro t c h
    obtain ⟨d, hstep, hd⟩ := h.exists_step call
    obtain ⟨e, hrest, he⟩ := ih hd
    exact ⟨e, .cons hstep hrest, he⟩

end Mirrors

/-- **A tracker keeps a census.**  From a new tracker on, with any thresholds, any calls with the
events they return are a run of the census with room for as many peers as there are both buckets and
records, and the tracker shows what the census holds. -/
theorem run_refines_census (buckets records : Nat) (thresholds : Thresholds) (calls : List Call) :
    ∃ c : Census,
      Census.Run (min buckets records) (.start thresholds) calls
          ((start buckets records thresholds).run calls).2 c ∧
        ((start buckets records thresholds).run calls).1.Reflects c := by
  obtain ⟨c, hrun, hc⟩ := Mirrors.exists_run calls (Mirrors.start buckets records thresholds)
  exact ⟨c, hrun, hc.reflects⟩

end Tracker

end PeerBeacon
