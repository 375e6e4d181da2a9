import PeerBeacon.Tracker

/-!
# Rewriting all records of a roster

A roster looks at the ids of its records and at nothing else in them.  So if all records, those in
free places included, are rewritten in one way that keeps their ids and leaves fresh records as they
are (a `Recasting`), the roster goes on as before: each operation, done on the rewritten roster,
leaves what rewriting its outcome gives, with the same index, handles and free places.

This needs no invariant.  It holds of stale buckets and of rosters that no history leads to.
-/

namespace PeerBeacon

/-- A way of rewriting records that a roster does not notice. -/
structure Recasting where
  apply : Record → Record
  id_apply : ∀ r, (apply r).id = r.id
  apply_fresh : ∀ id, apply (.fresh id) = .fresh id

namespace Roster

variable {buckets records : Nat}

/-- The roster with all its records rewritten. -/
def recast (ρ : Recasting) (t : Roster buckets records) : Roster buckets records :=
  { t with arena := t.arena.map ρ.apply }

section Recast

variable (ρ : Recasting) (t : Roster buckets records) (id : NodeId)

theorem get_map_apply (arena : Vector Record records) (handle : Fin records) :
    (arena.map ρ.apply).get handle = ρ.apply (arena.get handle) := by
  simp [Vector.get]

theorem overwrite_map_apply (arena : Vector Record records) (handle : Fin records) (r : Record) :
    overwrite (arena.map ρ.apply) handle (ρ.apply r) = (overwrite arena handle r).map ρ.apply :=
  Vector.map_set.symm

theorem recast_empty (buckets records : Nat) :
    (Roster.empty buckets records).recast ρ = .empty buckets records := by
  rw [recast, Roster.empty]
  simp only [Vector.map_replicate]
  rw [Record.vacant, ρ.apply_fresh]

/-! ## Looking things up -/

theorem find?_recast : (t.recast ρ).find? id = t.find? id := by
  have harena : ∀ handle, ((t.recast ρ).arena.get handle).id = (t.arena.get handle).id := by
    intro handle
    rw [recast, get_map_apply, ρ.id_apply]
  simp only [find?, harena]
  rfl

theorem contains_recast : (t.recast ρ).contains id = t.contains id := by
  rw [contains, find?_recast, contains]

theorem get?_recast : (t.recast ρ).get? id = (t.get? id).map ρ.apply := by
  rw [get?, get?, find?_recast, Option.map_map]
  exact congrArg (fun f => Option.map f (t.find? id))
    (funext fun found => get_map_apply ρ t.arena found.2)

theorem tracked_recast : (t.recast ρ).tracked = t.tracked.map ρ.apply := by
  rw [tracked, tracked, List.map_map]
  exact List.map_congr_left fun e _ => get_map_apply ρ t.arena e.handle

/-! ## Changes -/

/-- An edit and the same edit of rewritten records. -/
theorem modify_recast {f g : Record → Record} (h : ∀ r, g (ρ.apply r) = ρ.apply (f r)) :
    (t.recast ρ).modify id g = (t.modify id f).recast ρ := by
  rw [modify, modify, find?_recast]
  cases t.find? id with
  | none => rfl
  | some found =>
    simp only [recast, get_map_apply, h, overwrite_map_apply]

theorem map_recast {f g : Record → Record} (h : ∀ r, g (ρ.apply r) = ρ.apply (f r)) :
    (t.recast ρ).map g = (t.map f).recast ρ := by
  refine congrArg (fun arena => { t with arena }) ?_
  refine List.foldl_hom (fun arena : Vector Record records => arena.map ρ.apply) ?_
  rintro arena ⟨e, i⟩
  simp only [get_map_apply, h, overwrite_map_apply]

theorem insert_recast :
    (t.recast ρ).insert id = { t.insert id with state := (t.insert id).state.recast ρ } := by
  have hset : ∀ handle, overwrite (t.arena.map ρ.apply) handle (.fresh id) =
      (overwrite t.arena handle (.fresh id)).map ρ.apply := by
    intro handle
    rw [← overwrite_map_apply, ρ.apply_fresh]
  have hseat : (t.recast ρ).seat? id = t.seat? id := rfl
  have hfree : (t.recast ρ).free = t.free := rfl
  by_cases hid : id = NodeId.reserved
  · subst hid
    rfl
  · simp only [insert, dif_neg hid, find?_recast, hseat, hfree]
    cases t.find? id with
    | some found => simp only [recast, hset]
    | none =>
      cases t.seat? id with
      | none => rfl
      | some i =>
        cases hclaim : t.free with
        | nil => rfl
        | cons handle free => simp only [recast, hset]

theorem erase_recast : (t.recast ρ).erase id = (t.erase id).recast ρ := by
  have hvacate : ∀ handle, overwrite (t.arena.map ρ.apply) handle .vacant =
      (overwrite t.arena handle .vacant).map ρ.apply := by
    intro handle
    rw [← overwrite_map_apply, Record.vacant, ρ.apply_fresh]
  rw [erase, erase, erase?, erase?, find?_recast]
  cases t.find? id with
  | none => rfl
  | some found =>
    rw [Option.map_some, Option.map_some, Option.getD_some, Option.getD_some]
    simp only [recast, hvacate]

theorem foldl_erase_recast (gone : List NodeId) :
    ∀ t : Roster buckets records,
      gone.foldl erase (t.recast ρ) = (gone.foldl erase t).recast ρ := by
  intro t
  refine List.foldl_hom (recast ρ) ?_
  intro u id
  exact erase_recast ρ u id

/-- Enrolling a peer, told at a reading of the clock that may be written differently too. -/
theorem enroll_recast {heard heard' : Tick}
    (h : ∀ r, (ρ.apply r).firstHearing heard' = ρ.apply (r.firstHearing heard)) :
    ((t.recast ρ).enroll id heard').state = (t.enroll id heard).state.recast ρ := by
  rw [enroll, enroll, contains_recast]
  split
  · rfl
  · dsimp only
    rw [insert_recast]
    dsimp only
    split
    · exact modify_recast ρ (t.insert id).state id h
    · rfl

end Recast

end Roster

end PeerBeacon
