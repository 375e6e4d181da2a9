import PeerBeacon.Proofs.Node.Encounter
import PeerBeacon.Proofs.Tracker.Lone
import PeerBeacon.Proofs.Tracker.Sighting

/-!
# Two nodes discover each other

A node that knows nobody meets another one whose scheme is made to meet its own.  It hears the other
one in the slots that are active for both, and between two of these it sweeps no later than a
timeout allows.  So the other node is never taken for gone, and it is reported as present once and
in time (`Encounter.discovery`).

One slot takes the listener from one stage of a `Progress` to the next (`Encounter.slot_progress`);
the schedules give the windows in which a slot is shared (`Encounter.frequent`).
-/

namespace PeerBeacon

variable {buckets records : Nat} {id : NodeId} {limits : Thresholds}

/-- A node that knows the peer `id` as `p?`, if at all, and nobody else. -/
structure Node.Heeds (n : Node buckets records) (id : NodeId) (limits : Thresholds)
    (p? : Option Peer) : Prop where
  id_ne : id ≠ n.id
  thresholds_eq : n.tracker.thresholds = limits
  holds : n.tracker.HoldsOnly id p?

/-- A reception of the peer `id` at `heard` that is strong enough to count. -/
structure Reception.Counts (r : Reception) (id : NodeId) (limits : Thresholds)
    (heard : Tick) : Prop where
  source_eq : r.announcement.source = id
  qualifies : limits.qualifies r.rssi = true
  heard_eq : r.heard = heard

namespace Node.Heeds

variable {n : Node buckets records} {p? : Option Peer} {now : Tick}

/-- A reception that counts is heard by the rules for the peer. -/
theorem receive (h : n.Heeds id limits p?) (hid : id ≠ NodeId.reserved)
    (hroom : 0 < min buckets records) {r : Reception} (hr : r.Counts id limits now) :
    (n.receive r).state.Heeds id limits
        (some ((p?.getD (.nearing now now)).hear limits.detectAfter now)) ∧
      (n.receive r).answer = (p?.getD (.nearing now now)).hearEvent limits.detectAfter now id := by
  obtain ⟨hsource, hqualifies, hheard⟩ := hr
  obtain ⟨hne, hlimits, hholds⟩ := h
  have hrejects : n.rejects r = false := by
    rw [rejects, Announcement.hasValidSource, hsource]
    simp [hid, hne]
  rw [← hlimits] at hqualifies
  obtain ⟨hafter, hanswer⟩ := hholds.receive hid hroom hqualifies now
  rw [hlimits] at hafter hanswer
  simp only [Node.receive, hrejects, Bool.false_eq_true, if_false, hqualifies, if_true, hsource,
    hheard]
  exact ⟨⟨hne, (Tracker.thresholds_receive _ _ _ _).trans hlimits, hafter⟩, hanswer⟩

/-- A full slot at whose end a sweep would find nothing changes nothing and reports nothing. -/
theorem runSlot (h : n.Heeds id limits p?) (hage : p?.bind (Peer.age limits now) = p?)
    (hdue : p?.bind (Peer.due limits now id) = none) :
    (n.runSlot (.steady now)).state.Heeds id limits p? ∧
      (n.runSlot (.steady now)).answer.events = [] := by
  obtain ⟨hne, hlimits, hholds⟩ := h
  have hne' : id ≠ (n.runSlot (.steady now)).state.id := by
    rw [Node.id, n.scheduler_runSlot]
    exact hne
  obtain ⟨hswept, hanswer⟩ := hholds.sweep now
  rw [hlimits, hage] at hswept
  rw [hlimits, hdue] at hanswer
  rcases n.runSlot_cases (.steady now) with ⟨htracker, hevents⟩ | ⟨htracker, hevents⟩
  · refine ⟨⟨hne', ?_, ?_⟩, hevents⟩
    · rw [htracker, hlimits]
    · rw [htracker]
      exact hholds
  · refine ⟨⟨hne', ?_, ?_⟩, hevents.trans hanswer⟩
    · rw [htracker]
      exact hlimits
    · rw [htracker]
      exact hswept

section Progress

variable {micros slots span k : Nat} {shared : Nat → Bool} {events : List Event}
  (hf : Frequent micros limits shared slots span) (hid : id ≠ NodeId.reserved)
  (hroom : 0 < min buckets records) (hk : shared k = true)
include hf hid hroom hk

/-- Further receptions in a shared slot. -/
theorem receiveAll_again (rs : List Reception)
    (hrs : ∀ r ∈ rs, r.Counts id limits (slotTick micros k)) :
    ∀ {n : Node buckets records} {p : Peer} {events : List Event}, n.Heeds id limits (some p) →
      Progress micros limits id shared (k + 1) (some p) events →
      ∃ q, (n.receiveAll rs).1.Heeds id limits (some q) ∧
        Progress micros limits id shared (k + 1) (some q) (events ++ (n.receiveAll rs).2) := by
  induction rs with
  | nil =>
    intro n p events h hprogress
    exact ⟨p, h, by rwa [receiveAll, List.append_nil]⟩
  | cons r rs ih =>
    intro n p events h hprogress
    obtain ⟨hafter, hanswer⟩ := h.receive hid hroom (hrs r List.mem_cons_self)
    have hagain := hprogress.hear_again hf hk
    obtain ⟨q, hq, hdone⟩ := ih (fun r' hr' => hrs r' (List.mem_cons_of_mem r hr')) hafter hagain
    rw [List.append_assoc] at hdone
    refine ⟨q, hq, ?_⟩
    rw [receiveAll, hanswer]
    exact hdone

/-- The receptions of a shared slot, of which there is at least one. -/
theorem receiveAll {rs : List Reception} (hne : rs ≠ [])
    (hrs : ∀ r ∈ rs, r.Counts id limits (slotTick micros k)) (h : n.Heeds id limits p?)
    (hprogress : Progress micros limits id shared k p? events) :
    ∃ q, (n.receiveAll rs).1.Heeds id limits (some q) ∧
      Progress micros limits id shared (k + 1) (some q) (events ++ (n.receiveAll rs).2) := by
  obtain ⟨r, rs, rfl⟩ := List.exists_cons_of_ne_nil hne
  obtain ⟨hafter, hanswer⟩ := h.receive hid hroom (hrs r List.mem_cons_self)
  have hheard := hprogress.hear hf
  obtain ⟨q, hq, hdone⟩ := receiveAll_again hf hid hroom hk rs
    (fun r' hr' => hrs r' (List.mem_cons_of_mem r hr')) hafter hheard
  rw [List.append_assoc] at hdone
  refine ⟨q, hq, ?_⟩
  rw [Node.receiveAll, hanswer]
  exact hdone

end Progress

end Node.Heeds

/-! ## Slots of an encounter -/

/-- An active slot asks for a whole burst. -/
theorem Scheduler.frames_action {s : Scheduler} (h : s.action.isActive = true) :
    s.action.frames = s.burst.toNat := by
  rw [isActive_action] at h
  rw [action, if_pos h]
  rfl

namespace Encounter

variable {buckets' records' : Nat} {e : Encounter buckets records buckets' records'}

/-- Whatever is received of a slot comes from the speaker and counts. -/
theorem counts_of_mem_receptions {now : Tick} {rssi : Nat → Int16}
    (hrssi : ∀ i, limits.qualifies (rssi i) = true) {sent : List Announcement}
    (hsent : ∀ a ∈ sent, a.source = id) :
    ∀ r ∈ receptions now rssi sent, r.Counts id limits now := by
  intro r hr
  obtain ⟨i, hi, rfl⟩ := List.mem_mapIdx.mp hr
  exact ⟨hsent _ (List.getElem_mem hi), hrssi i, rfl⟩

/-- Something is received in a shared slot if the burst of the speaker is not empty. -/
theorem receptions_ne_nil (hshared : e.isShared = true)
    (hburst : e.speaker.scheduler.burst ≠ 0) (clock : SlotClock) (now : Tick) (rssi : Nat → Int16) :
    receptions now rssi (e.speaker.runSlot clock).answer.sent ≠ [] := by
  have hactive : e.speaker.scheduler.action.isActive = true := (Bool.and_eq_true_iff.mp hshared).1
  have hpos := UInt8.lt_iff_toNat_lt.mp (UInt8.pos_iff_ne_zero.mpr hburst)
  refine List.ne_nil_of_length_pos ?_
  rw [receptions, List.length_mapIdx, Node.sent_runSlot, Node.length_announcements,
    Scheduler.frames_action hactive]
  exact hpos

/-- A slot of an encounter takes the listener one slot further. -/
theorem slot_progress {micros slots span k : Nat} {shared : Nat → Bool} {events : List Event}
    {p? : Option Peer} {rssi : Nat → Int16} (hf : Frequent micros limits shared slots span)
    (hid : e.speaker.id ≠ NodeId.reserved) (hroom : 0 < min buckets' records')
    (hburst : e.speaker.scheduler.burst ≠ 0) (hrssi : ∀ i, limits.qualifies (rssi i) = true)
    (hshared : e.isShared = shared k) (h : e.listener.Heeds e.speaker.id limits p?)
    (hprogress : Progress micros limits e.speaker.id shared k p? events) :
    ∃ q?, (e.slot (slotTick micros k) rssi).1.listener.Heeds e.speaker.id limits q? ∧
      Progress micros limits e.speaker.id shared (k + 1) q?
        (events ++ (e.slot (slotTick micros k) rssi).2) := by
  obtain ⟨hage, hdue⟩ := hprogress.quiet hf
  obtain ⟨hran, hquiet⟩ := h.runSlot hage hdue
  cases hk : shared k with
  | false =>
    rw [hk] at hshared
    rw [slot_of_not_shared hshared, hquiet, List.append_nil]
    exact ⟨p?, hran, hprogress.skip hk⟩
  | true =>
    rw [hk] at hshared
    have hsent : ∀ a ∈ (e.speaker.runSlot (.steady (slotTick micros k))).answer.sent,
        a.source = e.speaker.id := by
      intro a ha
      rw [Node.sent_runSlot] at ha
      exact Node.source_of_mem_announcements ha
    obtain ⟨q, hq, hdone⟩ := Node.Heeds.receiveAll hf hid hroom hk
      (receptions_ne_nil hshared hburst (.steady (slotTick micros k)) (slotTick micros k) rssi)
      (counts_of_mem_receptions hrssi hsent) hran hprogress
    rw [slot_of_shared hshared, hquiet]
    exact ⟨some q, hq, hdone⟩

/-! ## Runs of an encounter -/

/-- The seconds after which the listener is sure to have reported the speaker. -/
def deadline (t : Thresholds) : Nat :=
  t.detectAfter.toNat + 2 * t.shortTimeout.toNat

section Run

variable {settings settings' : Settings} {micros : Nat} (rssi : Nat → Nat → Int16)

/-- Matching schemes share slots often enough if a cycle is shorter than the timeouts. -/
theorem frequent (hspeaker : e.speaker.Newcomer settings)
    (hlistener : e.listener.Newcomer settings')
    (hmatch : settings.schedule.scheme.Matching settings'.schedule.scheme)
    (hcheck : settings.check = .ok ()) (hcheck' : settings'.check = .ok ()) (hmicros : 0 < micros)
    (hcycle : settings.schedule.scheme.cycleLength * micros ≤
      (min settings'.thresholds.shortTimeout.toNat settings'.thresholds.leaveGrace.toNat - 1) *
        1000000)
    (hrange : deadline settings'.thresholds < 2 ^ 31) :
    Frequent micros settings'.thresholds (fun k => (e.run micros rssi k).1.isShared)
      settings.schedule.scheme.cycleLength
      (min settings'.thresholds.shortTimeout.toNat settings'.thresholds.leaveGrace.toNat - 1) := by
  obtain ⟨hschedule, -⟩ := (Settings.check_eq_ok_iff settings).mp hcheck
  obtain ⟨hschedule', hthresholds'⟩ := (Settings.check_eq_ok_iff settings').mp hcheck'
  have hscheme := ((Schedule.check_eq_ok_iff _).mp hschedule).2.2.2
  have hscheme' := ((Schedule.check_eq_ok_iff _).mp hschedule').2.2.2
  have hpos : 0 < settings.schedule.scheme.cycleLength * micros :=
    Nat.mul_pos (SlotScheme.cycleLength_pos _) hmicros
  refine ⟨fun w => ?_, hcycle, by omega, by omega,
    ((Thresholds.check_eq_ok_iff _).mp hthresholds').2, hrange⟩
  obtain ⟨k, hk, hactive, hactive'⟩ := hmatch.exists_isActive hscheme hscheme'
    (e.speaker.scheduler.slot + w) (e.listener.scheduler.slot + w)
  refine ⟨k, hk, ?_⟩
  rw [Nat.add_assoc] at hactive hactive'
  rw [isShared_run, hspeaker.scheme_eq, hlistener.scheme_eq, hactive, hactive', Bool.and_self]

/-- The speaker keeps its id and the size of its burst. -/
theorem speaker_run (micros n : Nat) :
    (e.run micros rssi n).1.speaker.id = e.speaker.id ∧
      (e.run micros rssi n).1.speaker.scheduler.burst = e.speaker.scheduler.burst := by
  obtain ⟨sequence, hscheduler⟩ := e.scheduler_speaker_run micros rssi n
  rw [Node.id, hscheduler]
  exact ⟨Scheduler.nodeId_after _ n, Scheduler.burst_after _ n⟩

/-- After any number of slots the listener has made the progress that the shared slots allow. -/
theorem run_progress {slots span : Nat} (hlistener : e.listener.Newcomer settings')
    (hids : e.speaker.id ≠ e.listener.id) (hid : e.speaker.id ≠ NodeId.reserved)
    (hroom : 0 < min buckets' records') (hburst : e.speaker.scheduler.burst ≠ 0)
    (hrssi : ∀ j i, settings'.thresholds.qualifies (rssi j i) = true)
    (hf : Frequent micros settings'.thresholds (fun k => (e.run micros rssi k).1.isShared)
      slots span) (n : Nat) :
    ∃ p?, (e.run micros rssi n).1.listener.Heeds e.speaker.id settings'.thresholds p? ∧
      Progress micros settings'.thresholds e.speaker.id
        (fun k => (e.run micros rssi k).1.isShared) n p? (e.run micros rssi n).2 := by
  induction n with
  | zero =>
    exact ⟨none, ⟨hids, hlistener.thresholds_eq, .of_empty hlistener.holds _⟩, .start⟩
  | succ n ih =>
    obtain ⟨p?, hheeds, hprogress⟩ := ih
    obtain ⟨hsame, hsameBurst⟩ := speaker_run rssi micros n
    rw [← hsame] at hid hheeds hprogress ⊢
    rw [← hsameBurst] at hburst
    rw [run_succ]
    exact slot_progress hf hid hroom hburst (hrssi n) rfl hheeds hprogress

end Run

/-- **Two nodes discover each other.**  Two nodes with different ids know nobody and are anywhere in
their schedules, with accepted settings and schemes that are made to meet.  They begin their slots
together, the clock counted from zero, and the listener receives what the speaker sends in the slots
that are active for both, with any strengths that count.  If a cycle is shorter than both timeouts
by a second, the listener reports over any number of slots nothing but that the speaker is present,
at most once, and has done so by the end of the first slot that begins at the deadline or later. -/
theorem discovery (e : Encounter buckets records buckets' records') {settings settings' : Settings}
    (hspeaker : e.speaker.Newcomer settings) (hlistener : e.listener.Newcomer settings')
    (hids : e.speaker.id ≠ e.listener.id) (hid : e.speaker.id ≠ NodeId.reserved)
    (hroom : 0 < min buckets' records')
    (hcheck : settings.check = .ok ()) (hcheck' : settings'.check = .ok ())
    (hmatch : settings.schedule.scheme.Matching settings'.schedule.scheme)
    (rssi : Nat → Nat → Int16)
    (hrssi : ∀ j i, settings'.thresholds.qualifies (rssi j i) = true)
    (hcycle : settings.schedule.scheme.cycleLength * settings.schedule.slotMicros.toNat ≤
      (min settings'.thresholds.shortTimeout.toNat settings'.thresholds.leaveGrace.toNat - 1) *
        1000000)
    (hrange : deadline settings'.thresholds < 2 ^ 31) :
    (∀ n, (e.run settings.schedule.slotMicros.toNat rssi n).2 = [] ∨
      ∃ since, (e.run settings.schedule.slotMicros.toNat rssi n).2 =
        [.detect e.speaker.id since]) ∧
    ∃ j, (∀ i < j, (slotTick settings.schedule.slotMicros.toNat i).toNat <
        deadline settings'.thresholds) ∧
      deadline settings'.thresholds ≤ (slotTick settings.schedule.slotMicros.toNat j).toNat ∧
      ∀ n, j < n → ∃ since, (e.run settings.schedule.slotMicros.toNat rssi n).2 =
        [.detect e.speaker.id since] := by
  obtain ⟨hschedule, -⟩ := (Settings.check_eq_ok_iff settings).mp hcheck
  obtain ⟨hslot, hburst, -, -⟩ := (Schedule.check_eq_ok_iff _).mp hschedule
  rw [← hspeaker.burst_eq] at hburst
  have hmicros := UInt32.lt_iff_toNat_lt.mp (UInt32.pos_iff_ne_zero.mpr hslot)
  have hf := frequent rssi hspeaker hlistener hmatch hcheck hcheck' hmicros hcycle hrange
  have hrun := run_progress rssi hlistener hids hid hroom hburst hrssi hf
  refine ⟨fun n => ?_, ?_⟩
  · obtain ⟨p?, -, hprogress⟩ := hrun n
    exact hprogress.events_cases
  · obtain ⟨j, hbefore, hdue, hseconds⟩ := hf.exists_first_slotTick hmicros hrange
    refine ⟨j, hbefore, hdue, fun n hj => ?_⟩
    obtain ⟨p?, -, hprogress⟩ := hrun n
    exact hprogress.detected hf hj hseconds

/-- With the default settings, and the listener one slot ahead, the speaker is reported by the end
of the first slot that begins after twenty-one seconds. -/
theorem discovery_default :
    let e : Encounter 16 8 16 8 :=
      { speaker := .start 16 8 1 {}, listener := (Node.start 16 8 2 {}).advance.2 }
    (∀ n, (e.run 12500 (fun _ _ => -50) n).2 = [] ∨
      ∃ since, (e.run 12500 (fun _ _ => -50) n).2 = [.detect 1 since]) ∧
    ∃ j, (∀ i < j, (slotTick 12500 i).toNat < 21) ∧ 21 ≤ (slotTick 12500 j).toNat ∧
      ∀ n, j < n → ∃ since, (e.run 12500 (fun _ _ => -50) n).2 = [.detect 1 since] :=
  discovery { speaker := .start 16 8 1 {}, listener := (Node.start 16 8 2 {}).advance.2 }
    (Node.newcomer_start 16 8 1 {}) (Node.newcomer_start 16 8 2 {}).advance (by decide) (by decide)
    (by decide) Settings.check_default Settings.check_default (.coprime 11 13) (fun _ _ => -50)
    (fun _ _ => by decide) (by decide) (by decide)

end Encounter

end PeerBeacon
