import Mathlib.Algebra.BigOperators.Group.Finset.Piecewise
import PeerBeacon.Proofs.Tracker.Course

/-!
# Detections and absences balance

A peer counts as detected from its detection to its absence, and it has no other way in or out: a
record that is forgotten without an event belongs to a peer that was never detected.  So in every
step of a census the number of detected peers and the number of absences make up for the detections
(`Census.Step.balance`).  That is shown peer by peer (`Peer.Turn.balance`) and summed up over all
ids that have to do with the step.

Over a run of a tracker the detections are the absences and the peers that are detected now
(`Tracker.tally_detect_run`).
-/

namespace PeerBeacon

/-! ## Counting events -/

/-- The number of events of one kind. -/
def tally (kind : Event.Kind) (events : List Event) : Nat :=
  (events.map Event.kind).count kind

variable {kind : Event.Kind} {events : List Event}

theorem tally_cons (kind : Event.Kind) (e : Event) (events : List Event) :
    tally kind (e :: events) = tally kind events + if e.kind = kind then 1 else 0 := by
  rw [tally, List.map_cons, List.count_cons]
  simp only [beq_iff_eq]
  rfl

theorem tally_append (kind : Event.Kind) (events later : List Event) :
    tally kind (events ++ later) = tally kind events + tally kind later := by
  rw [tally, List.map_append, List.count_append]
  rfl

/-- Events are counted peer by peer. -/
theorem tally_eq_sum (kind : Event.Kind) {ids : Finset NodeId} :
    ∀ {events : List Event}, (∀ e ∈ events, e.id ∈ ids) →
      tally kind events = ∑ id ∈ ids, tally kind (events.filter (Event.isAbout id))
  | [], _ => (Finset.sum_eq_zero fun _ _ => rfl).symm
  | e :: events, h => by
    have hfilter : ∀ id, tally kind ((e :: events).filter (Event.isAbout id)) =
        tally kind (events.filter (Event.isAbout id)) +
          if e.id = id then (if e.kind = kind then 1 else 0) else 0 := by
      intro id
      rw [List.filter_cons, Event.isAbout]
      by_cases hid : e.id = id
      · rw [if_pos hid, if_pos (beq_iff_eq.mpr hid), tally_cons]
      · rw [if_neg hid, if_neg (mt beq_iff_eq.mp hid)]
        rfl
    have hrest := tally_eq_sum kind fun e' he' => h e' (List.mem_cons_of_mem e he')
    rw [tally_cons, Finset.sum_congr rfl fun id _ => hfilter id, Finset.sum_add_distrib, ← hrest,
      Finset.sum_ite_eq, if_pos (h e List.mem_cons_self)]

/-! ## One peer -/

namespace Peer

/-- One for a peer that is detected, and zero for all others. -/
def presence (p? : Option Peer) : Nat :=
  if p?.any isDetected then 1 else 0

/-- A peer that is heard becomes detected exactly if that is reported. -/
theorem balance_hear (p : Peer) (detectAfter : UInt32) (heard : Tick) (id : NodeId) :
    tally .detect (p.hearEvent detectAfter heard id).toList + presence (some p) =
      tally .absent (p.hearEvent detectAfter heard id).toList +
        presence (some (p.hear detectAfter heard)) := by
  cases p with
  | nearing first last =>
    rw [hear, hearEvent]
    split <;> rfl
  | present last detectedAt => rfl
  | leaving quietSince last detectedAt => rfl

/-- A peer that is swept stops being detected exactly if that is reported. -/
theorem balance_age (p : Peer) (limits : Thresholds) (now : Tick) (id : NodeId) :
    tally .detect (p.due limits now id).toList + presence (some p) =
      tally .absent (p.due limits now id).toList + presence (p.age limits now) := by
  cases p with
  | nearing first last =>
    rw [age, due]
    split <;> rfl
  | present last detectedAt =>
    rw [age, due]
    split_ifs <;> rfl
  | leaving quietSince last detectedAt =>
    rw [age, due]
    split <;> rfl

/-- For each peer, what comes in is what goes out. -/
theorem Turn.balance {limits : Thresholds} {id : NodeId} {call : Tracker.Call} {p? q? : Option Peer}
    (h : Turn limits id call p? events q?) :
    tally .detect events + presence p? = tally .absent events + presence q? := by
  cases h with
  | pass unheard unswept => rfl
  | refuse heard => rfl
  | @hear rssi heard _ h =>
    -- A new peer is nearing before it is heard.
    have hbefore : presence (some (p?.getD (.nearing heard heard))) = presence p? := by
      cases p? <;> rfl
    rw [← hbefore]
    exact balance_hear _ _ _ _
  | age =>
    cases p? with
    | none => rfl
    | some p => exact balance_age p limits _ id

end Peer

/-! ## All peers -/

namespace Census

/-- The peers that are detected are counted among any ids that include those in the directory. -/
theorem detectedCount_eq_sum (c : Census) {ids : Finset NodeId} (h : c.peers.ids ⊆ ids) :
    c.detectedCount = ∑ id ∈ ids, Peer.presence (c.peers.get? id) := by
  rw [detectedCount, Finset.card_filter]
  refine Finset.sum_subset h fun id _ hid => ?_
  rw [Directory.get?_eq_none_iff.mpr hid]
  rfl

theorem detectedCount_le (c : Census) : c.detectedCount ≤ c.peers.size :=
  Finset.card_filter_le _ _

variable {capacity : Nat} {c d : Census} {call : Tracker.Call}

/-- In each step what comes in is what goes out. -/
theorem Step.balance (h : Step capacity c call events d) :
    tally .detect events + c.detectedCount = tally .absent events + d.detectedCount := by
  let ids := c.peers.ids ∪ d.peers.ids ∪ (events.map Event.id).toFinset
  have hevents : ∀ e ∈ events, e.id ∈ ids := fun e he =>
    Finset.mem_union_right _ (List.mem_toFinset.mpr (List.mem_map_of_mem he))
  have hc : c.peers.ids ⊆ ids :=
    Finset.subset_union_left.trans Finset.subset_union_left
  have hd : d.peers.ids ⊆ ids :=
    Finset.subset_union_right.trans Finset.subset_union_left
  rw [tally_eq_sum .detect hevents, tally_eq_sum .absent hevents, c.detectedCount_eq_sum hc,
    d.detectedCount_eq_sum hd, ← Finset.sum_add_distrib, ← Finset.sum_add_distrib]
  exact Finset.sum_congr rfl fun id _ => (h.turn id).balance

end Census

/-! ## Trackers -/

namespace Tracker

variable {buckets records : Nat} {t : Tracker buckets records} {c : Census}

/-- The detected peers are among those tracked, and there is room for these. -/
theorem Mirrors.detectedCount_le (h : t.Mirrors c) :
    t.detectedCount ≤ t.roster.count ∧ t.roster.count ≤ min buckets records := by
  have hreflects := h.reflects
  rw [hreflects.detectedCount_eq, hreflects.count_eq]
  exact ⟨c.detectedCount_le, hreflects.size_le⟩

/-- In each call to a tracker what comes in is what goes out. -/
theorem Mirrors.exists_balance (h : t.Mirrors c) (call : Call) :
    ∃ d, (t.call call).1.Mirrors d ∧
      tally .detect (t.call call).2 + t.detectedCount =
        tally .absent (t.call call).2 + (t.call call).1.detectedCount := by
  obtain ⟨d, hstep, hd⟩ := h.exists_step call
  exact ⟨d, hd, h.detectedCount_eq ▸ hd.detectedCount_eq ▸ hstep.balance⟩

/-- Over a run of a tracker that begins with a census, what comes in is what goes out. -/
theorem Mirrors.balance_run (calls : List Call) :
    ∀ {t : Tracker buckets records} {c : Census}, t.Mirrors c →
      tally .detect (t.run calls).2.flatten + t.detectedCount =
        tally .absent (t.run calls).2.flatten + (t.run calls).1.detectedCount := by
  induction calls with
  | nil => exact fun _ => rfl
  | cons call calls ih =>
    intro t c h
    obtain ⟨d, hd, hfirst⟩ := h.exists_balance call
    have hrest := ih hd
    rw [run, List.flatten_cons, tally_append, tally_append]
    dsimp only at *
    omega

theorem detectedCount_start (buckets records : Nat) (limits : Thresholds) :
    (start buckets records limits).detectedCount = 0 :=
  (Mirrors.start buckets records limits).detectedCount_eq

/-- **Detections balance.**  Over any run of a new tracker, whatever the clock readings, the
detections are the absences and the peers that are detected at the end. -/
theorem tally_detect_run (buckets records : Nat) (limits : Thresholds) (calls : List Call) :
    tally .detect ((start buckets records limits).run calls).2.flatten =
      tally .absent ((start buckets records limits).run calls).2.flatten +
        ((start buckets records limits).run calls).1.detectedCount := by
  have hbalance := (Mirrors.start buckets records limits).balance_run calls
  rwa [detectedCount_start] at hbalance

end Tracker

end PeerBeacon
