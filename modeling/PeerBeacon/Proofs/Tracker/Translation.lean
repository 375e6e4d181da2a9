import PeerBeacon.Proofs.Roster.Recast

/-!
# Trackers that do the same in other words

A `Translation` writes records, readings of the clock and thresholds differently, in such a way that
being heard and being aged commute with it.  A tracker in translation then does what the tracker
itself does (`Tracker.receive_translate`, `Tracker.sweep_translate`): it tracks the same ids in the
same places, and gives up the same peers.  What it reports is a matter of each translation, and can
be told record by record (`Tracker.answer_receive_translate`, `Tracker.dueEvents_translate`).
-/

namespace PeerBeacon

/-- A way of writing records, readings and thresholds that the transitions of a record respect. -/
structure Translation extends Recasting where
  tick : Tick → Tick
  limits : Thresholds → Thresholds
  qualifies_limits : ∀ l rssi, (limits l).qualifies rssi = l.qualifies rssi
  firstHearing_apply : ∀ heard r,
    (apply r).firstHearing (tick heard) = apply (r.firstHearing heard)
  hear_apply : ∀ l heard r,
    ((apply r).hear (limits l).detectAfter (tick heard)).state =
      apply (r.hear l.detectAfter heard).state
  aged_apply : ∀ l now r, (apply r).aged (limits l) (tick now) = apply (r.aged l now)
  expires_apply : ∀ l now r,
    ((apply r).aging (limits l) (tick now)).expires = (r.aging l now).expires

namespace Roster

variable {buckets records : Nat} {t : Roster buckets records} {id : NodeId}

theorem modify_of_get?_eq_none (h : t.get? id = none) (f : Record → Record) :
    t.modify id f = t := by
  rw [get?, Option.map_eq_none_iff] at h
  rw [modify, h]

/-- The record of a peer is what an edit of the peer finds. -/
theorem modify_of_get?_eq_some {r : Record} (h : t.get? id = some r) (f : Record → Record) :
    t.modify id f = t.modify id fun _ => f r := by
  obtain ⟨found, hfound, rfl⟩ := Option.map_eq_some_iff.mp h
  rw [modify, modify, hfound]

end Roster

namespace Tracker

variable {buckets records : Nat} (t : Tracker buckets records)

/-! ## What calls come to -/

section Receive

variable {t} {rssi : Int16} (hq : t.thresholds.qualifies rssi = true) (id : NodeId) (heard : Tick)
include hq

/-- A reception that counts enrolls the peer and then edits its record, if there is one. -/
theorem state_receive :
    (t.receive id rssi heard).state =
      { t with
        roster := (t.roster.enroll id heard).state.modify id fun r =>
          (r.hear t.thresholds.detectAfter heard).state } := by
  simp only [receive, hq, if_true]
  cases hget : (t.roster.enroll id heard).state.get? id with
  | none => rw [Roster.modify_of_get?_eq_none hget]
  | some r => rw [Roster.modify_of_get?_eq_some hget]

theorem answer_receive :
    (t.receive id rssi heard).answer =
      ((t.roster.enroll id heard).state.get? id).bind fun r =>
        (r.hear t.thresholds.detectAfter heard).answer := by
  simp only [receive, hq, if_true]
  cases (t.roster.enroll id heard).state.get? id <;> rfl

end Receive

/-- The peers that a sweep gives up, read off the records. -/
theorem expired_eq_filterMap (now : Tick) :
    t.expired now = (t.roster.tracked.filterMap fun r =>
      if (r.aging t.thresholds now).expires then some r.id else none).take records := by
  rw [expired, agings, List.filterMap_map]
  rfl

/-- The events that a sweep reports, read off the records. -/
theorem dueEvents_eq_filterMap (now : Tick) :
    t.dueEvents now = (t.roster.tracked.filterMap fun r =>
      (r.aging t.thresholds now).event? r.id).take records := by
  rw [dueEvents, agings, List.filterMap_map]
  rfl

/-! ## Translations of a tracker -/

/-- The tracker in translation. -/
def translate (τ : Translation) : Tracker buckets records where
  roster := t.roster.recast τ.toRecasting
  thresholds := τ.limits t.thresholds

variable (τ : Translation)

theorem get?_enroll_translate (id : NodeId) (heard : Tick) :
    ((t.translate τ).roster.enroll id (τ.tick heard)).state.get? id =
      ((t.roster.enroll id heard).state.get? id).map τ.apply := by
  rw [translate, Roster.enroll_recast _ _ _ (τ.firstHearing_apply heard), Roster.get?_recast]

theorem receive_translate (id : NodeId) (rssi : Int16) (heard : Tick) :
    ((t.translate τ).receive id rssi (τ.tick heard)).state =
      (t.receive id rssi heard).state.translate τ := by
  have hlimits := τ.qualifies_limits t.thresholds rssi
  cases hq : t.thresholds.qualifies rssi with
  | false =>
    rw [receive_of_not_qualifies t id heard hq,
      receive_of_not_qualifies (t.translate τ) id _ (hlimits.trans hq)]
  | true =>
    have henroll := Roster.enroll_recast τ.toRecasting t.roster id (τ.firstHearing_apply heard)
    have hmodify := Roster.modify_recast τ.toRecasting (t.roster.enroll id heard).state id
      (f := fun r => (r.hear t.thresholds.detectAfter heard).state)
      (g := fun r => (r.hear (τ.limits t.thresholds).detectAfter (τ.tick heard)).state)
      (τ.hear_apply t.thresholds heard)
    rw [← henroll] at hmodify
    rw [state_receive hq, state_receive (t := t.translate τ) (hlimits.trans hq)]
    exact congrArg (Tracker.mk · (τ.limits t.thresholds)) hmodify

/-- What is reported of a reception is told of the record that is heard. -/
theorem answer_receive_translate {f : Event → Event} (id : NodeId) (rssi : Int16) (heard : Tick)
    (hf : ∀ r : Record,
      ((τ.apply r).hear (τ.limits t.thresholds).detectAfter (τ.tick heard)).answer =
        (r.hear t.thresholds.detectAfter heard).answer.map f) :
    ((t.translate τ).receive id rssi (τ.tick heard)).answer =
      (t.receive id rssi heard).answer.map f := by
  have hlimits := τ.qualifies_limits t.thresholds rssi
  cases hq : t.thresholds.qualifies rssi with
  | false =>
    rw [receive_of_not_qualifies t id heard hq,
      receive_of_not_qualifies (t.translate τ) id _ (hlimits.trans hq)]
    rfl
  | true =>
    rw [answer_receive hq, answer_receive (t := t.translate τ) (hlimits.trans hq),
      get?_enroll_translate, Option.bind_map, Option.map_bind]
    exact congrArg (Option.bind _) (funext hf)

/-- What a sweep reports is told of the translated records, in index order. -/
theorem dueEvents_translate (now : Tick) :
    (t.translate τ).dueEvents (τ.tick now) = (t.roster.tracked.filterMap fun r =>
      ((τ.apply r).aging (τ.limits t.thresholds) (τ.tick now)).event? r.id).take records := by
  rw [dueEvents_eq_filterMap, translate, Roster.tracked_recast, List.filterMap_map]
  simp only [Function.comp_def, τ.id_apply]

theorem expired_translate (now : Tick) :
    (t.translate τ).expired (τ.tick now) = t.expired now := by
  rw [expired_eq_filterMap, expired_eq_filterMap, translate, Roster.tracked_recast,
    List.filterMap_map]
  simp only [Function.comp_def, τ.expires_apply, τ.id_apply]

theorem sweep_translate (now : Tick) :
    ((t.translate τ).sweep (τ.tick now)).state = (t.sweep now).state.translate τ := by
  have hmap := Roster.map_recast τ.toRecasting t.roster
    (f := Record.aged t.thresholds now)
    (g := Record.aged (τ.limits t.thresholds) (τ.tick now)) (τ.aged_apply t.thresholds now)
  have herase := Roster.foldl_erase_recast τ.toRecasting (t.expired now)
    (t.roster.map (Record.aged t.thresholds now))
  rw [← hmap] at herase
  refine congrArg (Tracker.mk · (τ.limits t.thresholds)) ?_
  rw [expired_translate]
  exact herase

end Tracker

end PeerBeacon
