import PeerBeacon.Proofs.Tracker.Census
import PeerBeacon.Proofs.Tracker.Translation

/-!
# Leaving taken for present

A peer that is leaving is treated like one that is present in all that matters later: the same
silence makes it absent, and hearing it makes it present.  So leaving can be taken for present
(`Record.settled`).  The tracker that is left never takes a peer to be leaving, as if its leave
grace were longer than any span that the clock can show (`Thresholds.patient`), and reports what the
tracker itself reports, the leaves apart (`Tracker.run_settled`).

Trackers that differ in their leave grace only become equal in this way.
-/

namespace PeerBeacon

/-- The event opens or closes a presence. -/
def Event.isBoundary : Event → Bool
  | detect .. | absent .. => true
  | leave .. => false

/-- Thresholds by which no peer is ever found quiet. -/
def Thresholds.patient (limits : Thresholds) : Thresholds :=
  { limits with leaveGrace := 0xFFFFFFFF }

/-- No span is as long as the leave grace of a patient. -/
theorem Thresholds.not_leaveGrace_patient_le (limits : Thresholds) (now since : Tick) :
    ¬limits.patient.leaveGrace ≤ Tick.elapsed now since := by
  have hhalf : (0x7FFFFFFF : UInt32) < 0xFFFFFFFF := by decide
  exact UInt32.not_le.mpr (UInt32.lt_of_le_of_lt (Tick.elapsed_le now since) hhalf)

/-- What a sweep finds where no peer is found quiet. -/
def Aging.settled : Aging → Aging
  | quiet _ => unchanged
  | a => a

theorem Aging.expires_settled (a : Aging) : a.settled.expires = a.expires := by
  cases a <;> rfl

theorem Aging.event?_settled (id : NodeId) (a : Aging) :
    a.settled.event? id = (a.event? id).filter Event.isBoundary := by
  cases a <;> rfl

namespace Record

/-- The record with leaving taken for present. -/
def settled (r : Record) : Record :=
  match r.phase with
  | .unseen | .nearing => r
  | .present | .leaving => { r with phase := .present, windowStart := none }

@[simp] theorem id_settled (r : Record) : r.settled.id = r.id := by
  unfold settled
  split <;> rfl

@[simp] theorem lastHeard_settled (r : Record) : r.settled.lastHeard = r.lastHeard := by
  unfold settled
  split <;> rfl

@[simp] theorem detectedAt_settled (r : Record) : r.settled.detectedAt = r.detectedAt := by
  unfold settled
  split <;> rfl

@[simp] theorem isDetected_settled (r : Record) : r.settled.isDetected = r.isDetected := by
  obtain ⟨id, phase, windowStart, lastHeard, detectedAt⟩ := r
  cases phase <;> rfl

/-- A settled record is heard as the record itself is. -/
theorem state_hear_settled (detectAfter : UInt32) (heard : Tick) (r : Record) :
    (r.settled.hear detectAfter heard).state = (r.hear detectAfter heard).state.settled := by
  obtain ⟨id, phase, windowStart, lastHeard, detectedAt⟩ := r
  have hreached := Bool.eq_false_or_eq_true
    (Tick.reached (Tick.latest lastHeard heard) (windowStart.getD heard) detectAfter)
  cases phase with
  | unseen => rcases hreached with h | h <;> simp [settled, hear, h]
  | nearing => rcases hreached with h | h <;> simp [settled, hear, h]
  | present => rfl
  | leaving => rfl

theorem answer_hear_settled (detectAfter : UInt32) (heard : Tick) (r : Record) :
    (r.settled.hear detectAfter heard).answer = (r.hear detectAfter heard).answer := by
  obtain ⟨id, phase, windowStart, lastHeard, detectedAt⟩ := r
  cases phase <;> rfl

/-- Being heard never makes a peer leave. -/
theorem isBoundary_of_answer_hear {detectAfter : UInt32} {heard : Tick} {r : Record} {e : Event}
    (h : (r.hear detectAfter heard).answer = some e) : e.isBoundary = true := by
  unfold hear at h
  dsimp only at h
  split at h <;> try split at h
  all_goals cases h
  all_goals rfl

/-- A sweep finds of a settled record what it finds of the record itself, quietness apart. -/
theorem aging_settled (limits : Thresholds) (now : Tick) (r : Record) :
    r.settled.aging limits.patient now = (r.aging limits now).settled := by
  obtain ⟨id, phase, windowStart, lastHeard, detectedAt⟩ := r
  cases lastHeard with
  | none => cases phase <;> rfl
  | some last =>
    have hpatient := limits.not_leaveGrace_patient_le now last
    cases phase with
    | unseen => rfl
    | nearing =>
      simp only [settled, aging, Thresholds.patient, apply_ite Aging.settled]
      rfl
    | present =>
      simp only [settled, aging, if_neg hpatient, apply_ite Aging.settled]
      simp only [Aging.settled, ite_self]
      rfl
    | leaving =>
      simp only [settled, aging, if_neg hpatient, apply_ite Aging.settled]
      simp only [Aging.settled]
      rfl

/-- Only a peer that is present goes quiet. -/
theorem phase_of_quiet {limits : Thresholds} {now since : Tick} {r : Record}
    (h : r.aging limits now = .quiet since) : r.phase = .present := by
  unfold aging at h
  dsimp only at h
  split at h
  · cases h
  · split at h
    · cases h
    · split_ifs at h
    · assumption
    · split_ifs at h

/-- A sweep never takes a settled record to be leaving. -/
theorem aged_settled (limits : Thresholds) (now : Tick) (r : Record) :
    r.settled.aged limits.patient now = (r.aged limits now).settled := by
  have hkeeps : r.settled.aged limits.patient now = r.settled := by
    rw [aged, aging_settled]
    cases r.aging limits now <;> rfl
  rw [hkeeps, aged]
  split
  · next since hquiet =>
    have hphase := phase_of_quiet hquiet
    obtain ⟨id, phase, windowStart, lastHeard, detectedAt⟩ := r
    obtain rfl : phase = .present := hphase
    rfl
  · rfl

theorem firstHearing_settled (heard : Tick) (r : Record) :
    r.settled.firstHearing heard = (r.firstHearing heard).settled := by
  obtain ⟨id, phase, windowStart, lastHeard, detectedAt⟩ := r
  cases phase <;> rfl

end Record

/-- Taking leaving for present. -/
def Translation.settling : Translation where
  apply := Record.settled
  id_apply := Record.id_settled
  apply_fresh _ := rfl
  tick now := now
  limits := Thresholds.patient
  qualifies_limits _ _ := rfl
  firstHearing_apply := Record.firstHearing_settled
  hear_apply limits := Record.state_hear_settled limits.detectAfter
  aged_apply := Record.aged_settled
  expires_apply limits now r := by rw [Record.aging_settled, Aging.expires_settled]

/-! ## Trackers -/

/-- The detects and absents in the reports of a run. -/
def boundaries (reports : List (List Event)) : List (List Event) :=
  reports.map (List.filter Event.isBoundary)

namespace Tracker

variable {buckets records : Nat} {t u : Tracker buckets records} {c : Census}

/-- The tracker with leaving taken for present. -/
def settled (t : Tracker buckets records) : Tracker buckets records :=
  t.translate .settling

theorem settled_start (buckets records : Nat) (thresholds : Thresholds) :
    (start buckets records thresholds).settled = start buckets records thresholds.patient :=
  congrArg (Tracker.mk · thresholds.patient)
    (Roster.recast_empty Translation.settling.toRecasting buckets records)

/-- What taking leaving for present leaves of a record can be seen on the tracker itself. -/
theorem map_get?_settled {f : Record → α} (hf : ∀ r, f r.settled = f r)
    (t : Tracker buckets records) (id : NodeId) :
    (t.settled.roster.get? id).map f = (t.roster.get? id).map f := by
  rw [settled, translate, Roster.get?_recast, Option.map_map]
  exact congrArg (fun g => Option.map g (t.roster.get? id)) (funext hf)

theorem detectedCount_settled (t : Tracker buckets records) :
    t.settled.detectedCount = t.detectedCount := by
  rw [detectedCount, detectedCount, List.countP_filterMap, List.countP_filterMap]
  simp only [map_get?_settled Record.isDetected_settled]
  rfl

/-! ### Calls -/

theorem answer_receive_settled (t : Tracker buckets records) (id : NodeId) (rssi : Int16)
    (heard : Tick) : (t.settled.receive id rssi heard).answer = (t.receive id rssi heard).answer := by
  have hanswer := t.answer_receive_translate .settling (f := fun e => e) id rssi heard fun r =>
    (r.answer_hear_settled t.thresholds.detectAfter heard).trans Option.map_id'.symm
  exact hanswer.trans Option.map_id'

/-- Being heard makes no peer leave. -/
theorem filter_isBoundary_answer_receive (t : Tracker buckets records) (id : NodeId)
    (rssi : Int16) (heard : Tick) :
    (t.receive id rssi heard).answer.toList.filter Event.isBoundary =
      (t.receive id rssi heard).answer.toList := by
  refine List.filter_eq_self.mpr ?_
  intro e he
  rw [Option.mem_toList] at he
  cases hq : t.thresholds.qualifies rssi with
  | false =>
    rw [receive_of_not_qualifies t id heard hq] at he
    cases he
  | true =>
    rw [answer_receive hq] at he
    obtain ⟨r, -, hr⟩ := Option.bind_eq_some_iff.mp he
    exact Record.isBoundary_of_answer_hear hr

/-- A sweep of the settled tracker reports what a sweep of the tracker itself does, the leaves
apart.  The tracker has to be a mirror, since leaves that crowd out other events would be missed. -/
theorem dueEvents_settled (h : t.Mirrors c) (now : Tick) :
    t.settled.dueEvents now = (t.dueEvents now).filter Event.isBoundary := by
  have hfew : t.roster.tracked.length ≤ records := by
    have hagings := length_agings_le h.holds now
    rwa [agings, List.length_map] at hagings
  have hroom : ∀ f : Record → Option Event,
      (t.roster.tracked.filterMap f).take records = t.roster.tracked.filterMap f := fun f =>
    List.take_of_length_le ((List.length_filterMap_le f _).trans hfew)
  have hevent : ∀ r : Record,
      (r.settled.aging t.thresholds.patient now).event? r.id =
        ((r.aging t.thresholds now).event? r.id).filter Event.isBoundary := fun r => by
    rw [Record.aging_settled, Aging.event?_settled]
  refine (t.dueEvents_translate .settling now).trans ?_
  rw [dueEvents_eq_filterMap, hroom, hroom, List.filter_filterMap]
  exact congrArg (fun f => t.roster.tracked.filterMap f) (funext hevent)

/-- A call to the settled tracker is the call to the tracker itself, settled. -/
theorem call_settled (h : t.Mirrors c) (call : Call) :
    t.settled.call call = ((t.call call).1.settled, (t.call call).2.filter Event.isBoundary) := by
  cases call with
  | receive id rssi heard =>
    rw [Tracker.call, Tracker.call, answer_receive_settled, filter_isBoundary_answer_receive]
    exact Prod.ext (t.receive_translate .settling id rssi heard) rfl
  | sweep now =>
    exact Prod.ext (t.sweep_translate .settling now) (dueEvents_settled h now)
  | setMinRssi minRssi => rfl

/-- A run of the settled tracker is the run of the tracker itself, settled. -/
theorem run_settled (calls : List Call) :
    ∀ {t : Tracker buckets records} {c : Census}, t.Mirrors c →
      t.settled.run calls = ((t.run calls).1.settled, boundaries (t.run calls).2) := by
  induction calls with
  | nil => exact fun {t c} _ => rfl
  | cons call calls ih =>
    intro t c h
    obtain ⟨d, -, hd⟩ := h.exists_step call
    rw [run, call_settled h call]
    dsimp only
    rw [ih hd]
    rfl

/-! ### Trackers that differ in their leave grace -/

/-- Trackers that know the same peers, with the same readings and counts. -/
structure Alike (t u : Tracker buckets records) : Prop where
  ids_eq : t.roster.ids = u.roster.ids
  lastHeard_eq : ∀ id,
    (t.roster.get? id).map Record.lastHeard = (u.roster.get? id).map Record.lastHeard
  detectedAt_eq : ∀ id,
    (t.roster.get? id).map Record.detectedAt = (u.roster.get? id).map Record.detectedAt
  detectedCount_eq : t.detectedCount = u.detectedCount
  refusals_eq : t.roster.refusals = u.roster.refusals

/-- Trackers that are equal once they are settled are alike. -/
theorem Alike.of_settled_eq (h : t.settled = u.settled) : t.Alike u where
  ids_eq := congrArg (fun v => v.roster.ids) h
  lastHeard_eq id := by
    rw [← map_get?_settled Record.lastHeard_settled, h, map_get?_settled Record.lastHeard_settled]
  detectedAt_eq id := by
    rw [← map_get?_settled Record.detectedAt_settled, h,
      map_get?_settled Record.detectedAt_settled]
  detectedCount_eq := by rw [← detectedCount_settled, h, detectedCount_settled]
  refusals_eq := congrArg (fun v => v.roster.refusals) h

/-- The leave grace is lost when trackers are settled. -/
theorem settled_start_leaveGrace (buckets records : Nat) (thresholds : Thresholds)
    (leaveGrace : UInt32) :
    (start buckets records { thresholds with leaveGrace }).settled =
      (start buckets records thresholds).settled := by
  rw [settled_start, settled_start]
  rfl

end Tracker

end PeerBeacon
