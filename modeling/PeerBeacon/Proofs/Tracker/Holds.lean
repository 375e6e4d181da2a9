import PeerBeacon.Proofs.Roster.Membership
import PeerBeacon.Proofs.Tracker.Peer
import PeerBeacon.Tracker

/-!
# What a tracker holds

`Roster.Holds` says that a roster is faithful and that its records stand for the peers of a
directory.  A reception and a sweep keep this relation, and what they do to the directory are the
rules for single peers: a reception changes one peer (`Tracker.receive_of_heard`), a sweep ages all
of them (`Tracker.sweep_holds`).

The list of expired peers and the list of events have as many places as the arena has records.
Every peer has a record of its own, so neither list is ever cut short.
-/

namespace PeerBeacon

namespace Roster

variable {buckets records : Nat}

/-- A faithful roster whose records stand for the peers of a directory. -/
structure Holds (t : Roster buckets records) (peers : Directory Peer) : Prop where
  faithful : t.Faithful
  get?_eq : ∀ id, t.get? id = (peers.get? id).map (Peer.record id)

namespace Holds

variable {t : Roster buckets records} {peers : Directory Peer} {id : NodeId}

theorem listing (h : t.Holds peers) : peers.Listing t.ids :=
  h.faithful.listing fun id => by rw [h.get?_eq, Option.isSome_map]

theorem count_eq (h : t.Holds peers) : t.count = peers.size :=
  h.faithful.count_eq_size fun id => by rw [h.get?_eq, Option.isSome_map]

theorem contains_eq (h : t.Holds peers) (id : NodeId) :
    t.contains id = decide (id ∈ peers.ids) :=
  contains_eq_decide (fun id => by rw [h.get?_eq, Option.isSome_map]) id

theorem empty (buckets records : Nat) : (Roster.empty buckets records).Holds .empty where
  faithful := Faithful.empty buckets records
  get?_eq := Faithful.get?_empty buckets records

/-- The records in index order are those of the peers that the ids name. -/
theorem tracked_eq (h : t.Holds peers) :
    t.tracked = t.ids.filterMap fun id => (peers.get? id).map (Peer.record id) := by
  rw [h.faithful.tracked_eq]
  exact List.filterMap_congr fun id _ => h.get?_eq id

/-! ## Enrolling -/

/-- Enrolling a known peer changes nothing. -/
theorem enroll_of_known (h : t.Holds peers) (hid : id ∈ peers.ids) (heard : Tick) :
    t.enroll id heard = { state := t, answer := true } := by
  rw [enroll, h.contains_eq, decide_eq_true hid, if_pos rfl]

theorem enroll_of_unknown (h : t.Holds peers) (hid : id ∉ peers.ids) (heard : Tick) :
    (t.enroll id heard).state =
      if (t.insert id).answer = true then
        (t.insert id).state.modify id (Record.firstHearing heard)
      else (t.insert id).state := by
  rw [enroll, h.contains_eq, decide_eq_false hid, if_neg Bool.false_ne_true]
  dsimp only
  split <;> rfl

/-- A new peer for which there is room is enrolled as a nearing one. -/
theorem enroll_of_room (h : t.Holds peers) (hid : id ≠ NodeId.reserved) (hnew : id ∉ peers.ids)
    (hroom : peers.size < t.capacity) (heard : Tick) :
    (t.enroll id heard).state.Holds (peers.insert id hid (.nearing heard heard)) ∧
      (t.enroll id heard).state.refusals = t.refusals := by
  have hyes : (t.insert id).answer = true :=
    (h.faithful.answer_insert id).mpr ⟨hid, .inr (h.count_eq ▸ hroom)⟩
  have hfaithful := h.faithful.insert id
  have hget := h.faithful.get?_insert id
  have hrefusals := Faithful.refusals_insert t id
  simp only [hyes, and_true, or_true, if_true] at hget hrefusals
  have hkeep : ∀ r, (t.insert id).state.get? id = some r → (r.firstHearing heard).id = id :=
    fun r hr => (Record.id_firstHearing heard r).trans (id_of_get? hr)
  rw [h.enroll_of_unknown hnew, if_pos hyes]
  refine ⟨⟨hfaithful.modify hkeep, fun id' => ?_⟩, (refusals_modify _ _ _).trans hrefusals⟩
  rw [hfaithful.get?_modify hkeep, hget, hget, Directory.get?_insert]
  by_cases heq : id' = id
  · rw [if_pos heq, if_pos rfl, if_pos heq, heq]
    exact congrArg some (Peer.firstHearing_fresh id heard)
  · rw [if_neg heq, if_neg heq, if_neg heq]
    exact h.get?_eq id'

/-- A new peer for which there is no room is not enrolled but counted. -/
theorem enroll_of_full (h : t.Holds peers) (hid : id ≠ NodeId.reserved) (hnew : id ∉ peers.ids)
    (hfull : t.capacity ≤ peers.size) (heard : Tick) :
    (t.enroll id heard).state.Holds peers ∧
      (t.enroll id heard).state.refusals = t.refusals + 1 := by
  have hno : (t.insert id).answer = false := by
    refine Bool.eq_false_iff.mpr fun hyes => ?_
    rcases ((h.faithful.answer_insert id).mp hyes).2 with hmem | hroom
    · exact hnew ((h.listing.2 id).mp hmem)
    · rw [h.count_eq] at hroom
      omega
  have hget := h.faithful.get?_insert id
  have hrefusals := Faithful.refusals_insert t id
  simp only [hno, hid, Bool.false_eq_true, and_false, or_false, if_false] at hget hrefusals
  rw [h.enroll_of_unknown hnew, if_neg (Bool.eq_false_iff.mp hno)]
  exact ⟨⟨h.faithful.insert id, fun id' => (hget id').trans (h.get?_eq id')⟩, hrefusals⟩

/-- The reserved id is not enrolled. -/
theorem enroll_reserved (h : t.Holds peers) (heard : Tick) :
    (t.enroll NodeId.reserved heard).state = t := by
  have hnew : NodeId.reserved ∉ peers.ids := Directory.get?_eq_none_iff.mp peers.get?_reserved
  rw [h.enroll_of_unknown hnew, insert_reserved, if_neg Bool.false_ne_true]

end Holds

end Roster

/-! ## Receptions -/

namespace Tracker

variable {buckets records : Nat} {t : Tracker buckets records} {peers : Directory Peer}
  {id : NodeId} {rssi : Int16} {heard : Tick}

/-- A reception from a peer that is not known even after enrolling only enrolls. -/
theorem receive_of_unheard (hq : t.thresholds.qualifies rssi = true)
    (hnone : (t.roster.enroll id heard).state.get? id = none) :
    (t.receive id rssi heard).state.roster = (t.roster.enroll id heard).state ∧
      (t.receive id rssi heard).answer = none := by
  simp only [receive, hq, if_true, hnone, and_self]

/-- A reception from the reserved id is neither remembered nor reported. -/
theorem receive_reserved (h : t.roster.Holds peers) (hq : t.thresholds.qualifies rssi = true)
    (heard : Tick) :
    (t.receive NodeId.reserved rssi heard).state.roster = t.roster ∧
      (t.receive NodeId.reserved rssi heard).answer = none := by
  have henroll := h.enroll_reserved heard
  have hnone : (t.roster.enroll NodeId.reserved heard).state.get? NodeId.reserved = none := by
    rw [henroll, h.get?_eq, peers.get?_reserved, Option.map_none]
  obtain ⟨hroster, hanswer⟩ := receive_of_unheard hq hnone
  exact ⟨hroster.trans henroll, hanswer⟩

/-- A reception from a peer that is known once it is enrolled changes that peer by the rules for
being heard. -/
theorem receive_of_heard (hq : t.thresholds.qualifies rssi = true)
    (h : (t.roster.enroll id heard).state.Holds peers) {p : Peer} (hp : peers.get? id = some p) :
    (t.receive id rssi heard).state.roster.Holds
        (peers.modify id (Peer.hear t.thresholds.detectAfter heard)) ∧
      (t.receive id rssi heard).state.roster.refusals =
        (t.roster.enroll id heard).state.refusals ∧
      (t.receive id rssi heard).answer = p.hearEvent t.thresholds.detectAfter heard id := by
  have hget : (t.roster.enroll id heard).state.get? id = some (p.record id) := by
    rw [h.get?_eq, hp, Option.map_some]
  have hkeep : ∀ r, (t.roster.enroll id heard).state.get? id = some r →
      (((p.record id).hear t.thresholds.detectAfter heard).state).id = id := fun _ _ => by
    rw [Record.id_hear, Peer.id_record]
  simp only [receive, hq, if_true, hget]
  refine ⟨⟨h.faithful.modify hkeep, fun id' => ?_⟩, Roster.refusals_modify _ _ _,
    Peer.answer_hear_record _ _ _ _⟩
  rw [h.faithful.get?_modify hkeep, Directory.get?_modify, hget, hp]
  by_cases hid : id' = id
  · rw [if_pos hid, if_pos hid, hid, Peer.state_hear_record]
    rfl
  · rw [if_neg hid, if_neg hid]
    exact h.get?_eq id'

/-! ## Sweeps -/

/-- What a sweep finds, by the rules for peers. -/
theorem agings_eq (h : t.roster.Holds peers) (now : Tick) :
    t.agings now = t.roster.ids.filterMap fun id =>
      (peers.get? id).map fun p => (id, (p.record id).aging t.thresholds now) := by
  rw [agings, h.tracked_eq, List.map_filterMap]
  refine List.filterMap_congr fun id _ => ?_
  cases peers.get? id with
  | none => rfl
  | some p => rw [Option.map_some, Option.map_some, Option.map_some, Peer.id_record]

/-- A sweep never finds more than the arena has records. -/
theorem length_agings_le (h : t.roster.Holds peers) (now : Tick) :
    (t.agings now).length ≤ records := by
  have hcount := h.faithful.count_le_capacity
  rw [agings, List.length_map, Roster.tracked, List.length_map, ← h.faithful.count_eq]
  exact hcount.trans (Nat.min_le_right buckets records)

/-- A list with at most one entry for each finding has room for all of them. -/
theorem take_filterMap_agings (h : t.roster.Holds peers) (now : Tick)
    (f : NodeId × Aging → Option α) :
    ((t.agings now).filterMap f).take records = (t.agings now).filterMap f :=
  List.take_of_length_le ((List.length_filterMap_le _ _).trans (length_agings_le h now))

/-- A sweep reports what is due for each peer, in index order. -/
theorem dueEvents_eq (h : t.roster.Holds peers) (now : Tick) :
    t.dueEvents now =
      t.roster.ids.filterMap fun id => (peers.get? id).bind (Peer.due t.thresholds now id) := by
  rw [dueEvents, take_filterMap_agings h, agings_eq h, List.filterMap_filterMap]
  refine List.filterMap_congr fun id _ => ?_
  cases peers.get? id with
  | none => rfl
  | some p =>
    rw [Option.map_some, Option.bind_some, Option.bind_some]
    exact Peer.event?_aging_record t.thresholds now id p

/-- A sweep gives up the peers of which nothing is left. -/
theorem mem_expired_iff (h : t.roster.Holds peers) (now : Tick) (id : NodeId) :
    id ∈ t.expired now ↔ ∃ p, peers.get? id = some p ∧ p.age t.thresholds now = none := by
  rw [expired, take_filterMap_agings h, agings_eq h, List.filterMap_filterMap, List.mem_filterMap]
  constructor
  · rintro ⟨id', _, hid'⟩
    obtain ⟨found, hfound, hexp⟩ := Option.bind_eq_some_iff.mp hid'
    obtain ⟨p, hp, rfl⟩ := Option.map_eq_some_iff.mp hfound
    obtain ⟨hexpires, hsame⟩ := Option.ite_none_right_eq_some.mp hexp
    obtain rfl := Option.some.inj hsame
    rw [Peer.expires_aging_record, Option.isNone_iff_eq_none] at hexpires
    exact ⟨p, hp, hexpires⟩
  · rintro ⟨p, hp, hnone⟩
    refine ⟨id, (h.listing.2 id).mpr ((peers.mem_ids id).mpr (by rw [hp]; rfl)), ?_⟩
    rw [hp, Option.map_some, Option.bind_some]
    refine if_pos ?_
    rw [Peer.expires_aging_record, Option.isNone_iff_eq_none]
    exact hnone

/-- A sweep ages every peer. -/
theorem sweep_holds (h : t.roster.Holds peers) (now : Tick) :
    (t.sweep now).state.roster.Holds (peers.filterMap fun _ => Peer.age t.thresholds now) ∧
      (t.sweep now).state.roster.refusals = t.roster.refusals := by
  have hkeep : ∀ r, (Record.aged t.thresholds now r).id = r.id := Record.id_aged t.thresholds now
  obtain ⟨hfaithful, hget, hrefusals⟩ :=
    Roster.Faithful.foldl_erase (t.expired now) (h.faithful.map hkeep)
  refine ⟨⟨hfaithful, fun id => (hget id).trans ?_⟩, hrefusals⟩
  have hexp := mem_expired_iff h now id
  rw [h.faithful.get?_map hkeep, h.get?_eq, Directory.get?_filterMap]
  cases hp : peers.get? id with
  | none =>
    rw [Option.map_none, Option.map_none, ite_self]
    rfl
  | some p =>
    cases hage : p.age t.thresholds now with
    | none =>
      rw [if_pos (hexp.mpr ⟨p, hp, hage⟩), Option.bind_some, hage]
      rfl
    | some q =>
      have hstays : id ∉ t.expired now := by
        intro hmem
        obtain ⟨p', hp', hnone⟩ := hexp.mp hmem
        obtain rfl := Option.some.inj (hp.symm.trans hp')
        rw [hage] at hnone
        cases hnone
      rw [if_neg hstays, Option.map_some, Option.map_some, Option.bind_some, hage,
        Peer.aged_record hage, Option.map_some]

end Tracker

end PeerBeacon
