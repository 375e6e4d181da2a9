import PeerBeacon.Proofs.Tracker.Holds

/-!
# A tracker with one peer

A tracker that hears one peer only knows that peer or nobody.  What it does is then what the rules
say about that one peer: receptions and sweeps change it, and every event is about it.
-/

namespace PeerBeacon

namespace Tracker

variable {buckets records : Nat} {t : Tracker buckets records} {id : NodeId}

/-- A tracker that knows the peer `id` as `p?`, if at all, and nobody else. -/
def HoldsOnly (t : Tracker buckets records) (id : NodeId) (p? : Option Peer) : Prop :=
  ∃ peers : Directory Peer, t.roster.Holds peers ∧
    ∀ id', peers.get? id' = if id' = id then p? else none

theorem HoldsOnly.of_empty (h : t.roster.Holds .empty) (id : NodeId) : t.HoldsOnly id none :=
  ⟨.empty, h, fun _ => (ite_self none).symm⟩

/-- The ids in the roster are that of the one peer, if it is known. -/
theorem HoldsOnly.ids_eq {p? : Option Peer} (h : t.HoldsOnly id p?) :
    t.roster.ids = (p?.map fun _ => id).toList := by
  obtain ⟨peers, hholds, hget⟩ := h
  obtain ⟨hnodup, hmem⟩ := hholds.listing
  have hids : ∀ id', id' ∈ t.roster.ids ↔ id' = id ∧ p?.isSome = true := by
    intro id'
    rw [hmem, peers.mem_ids, hget]
    split <;> simp [*]
  cases p? with
  | none =>
    refine List.eq_nil_iff_forall_not_mem.mpr fun id' hid' => ?_
    exact Bool.false_ne_true ((hids id').mp hid').2
  | some p =>
    have hperm : t.roster.ids.Perm [id] := by
      refine (List.perm_ext_iff_of_nodup hnodup (List.nodup_singleton id)).mpr fun id' => ?_
      rw [hids, List.mem_singleton]
      exact and_iff_left rfl
    exact List.perm_singleton.mp hperm

/-- A sweep ages the one peer and reports what is due for it. -/
theorem HoldsOnly.sweep {p? : Option Peer} (h : t.HoldsOnly id p?) (now : Tick) :
    (t.sweep now).state.HoldsOnly id (p?.bind (Peer.age t.thresholds now)) ∧
      (t.sweep now).answer = (p?.bind (Peer.due t.thresholds now id)).toList := by
  have hids := h.ids_eq
  obtain ⟨peers, hholds, hget⟩ := h
  refine ⟨⟨_, (sweep_holds hholds now).1, fun id' => ?_⟩, (dueEvents_eq hholds now).trans ?_⟩
  · rw [Directory.get?_filterMap, hget]
    split <;> rfl
  · rw [hids]
    cases p? with
    | none => rfl
    | some p =>
      have hp : peers.get? id = some p := (hget id).trans (if_pos rfl)
      rw [Option.map_some, Option.toList_some, List.filterMap_cons, hp, Option.bind_some]
      cases Peer.due t.thresholds now id p <;> rfl

/-- A reception that counts changes the one peer by the rules for being heard; a peer that was not
known is nearing first. -/
theorem HoldsOnly.receive {p? : Option Peer} (h : t.HoldsOnly id p?) (hid : id ≠ NodeId.reserved)
    (hroom : 0 < t.roster.capacity) {rssi : Int16} (hq : t.thresholds.qualifies rssi = true)
    (heard : Tick) :
    (t.receive id rssi heard).state.HoldsOnly id
        (some ((p?.getD (.nearing heard heard)).hear t.thresholds.detectAfter heard)) ∧
      (t.receive id rssi heard).answer =
        (p?.getD (.nearing heard heard)).hearEvent t.thresholds.detectAfter heard id := by
  obtain ⟨peers, hholds, hget⟩ := h
  cases p? with
  | none =>
    obtain rfl : peers = .empty := Directory.ext fun id' => (hget id').trans (ite_self none)
    obtain ⟨henrolled, -⟩ := hholds.enroll_of_room hid (Finset.notMem_empty id) hroom heard
    obtain ⟨hafter, -, hanswer⟩ := receive_of_heard hq henrolled (if_pos rfl)
    rw [Directory.modify_insert] at hafter
    refine ⟨⟨_, hafter, fun id' => ?_⟩, hanswer⟩
    rw [Directory.get?_insert]
    rfl
  | some p =>
    have hp : peers.get? id = some p := (hget id).trans (if_pos rfl)
    have hknown : id ∈ peers.ids := (peers.mem_ids id).mpr (by rw [hp]; rfl)
    have henrolled : (t.roster.enroll id heard).state.Holds peers := by
      rw [hholds.enroll_of_known hknown]
      exact hholds
    obtain ⟨hafter, -, hanswer⟩ := receive_of_heard hq henrolled hp
    refine ⟨⟨_, hafter, fun id' => ?_⟩, hanswer⟩
    rw [Directory.get?_modify, hp, hget]
    split <;> rfl

end Tracker

end PeerBeacon
