import Mathlib.Data.Fintype.EquivFin
import PeerBeacon.Proofs.Roster.Entries

/-!
# Searching a coherent roster

`Roster.Coherent` is what no sequence of operations can break, whatever is written into the records:
the index is searchable, its keys and handles differ, and every place of the arena that is not on
the free list is accounted for in `count`.  In a coherent roster a search for the key of an entry
ends at the bucket of that entry (`Roster.Coherent.seat?_key`), so that `find?` and `get?` can be
read off the list of entries.
-/

namespace PeerBeacon

namespace Roster

variable {buckets records : Nat}

/-! ## Where a search ends -/

@[simp] theorem endsSearch_some (id : NodeId) (e : Entry records) :
    endsSearch id (some e) = (e.key == id) := rfl

/-- A search ends at the first bucket of its walk at which it can end. -/
theorem seat?_eq_some_iff {t : Roster buckets records} {id : NodeId} {i : Fin buckets} :
    t.seat? id = some i ↔
      endsSearch id (t.index.get i) = true ∧
        ∀ j : Fin buckets, Ring.Before id.toNat j i → endsSearch id (t.index.get j) = false := by
  rw [seat?, List.find?_eq_some_iff_getElem]
  refine and_congr_right fun _ => ?_
  constructor
  · rintro ⟨k, hk, hki, hall⟩ j hj
    have hk' : k < buckets := by simpa using hk
    rw [Ring.getElem_walk] at hki
    have hsteps : Ring.stepsFrom id.toNat i = k := by rw [← hki, Ring.stepsFrom_shift]
    have hjk : Ring.stepsFrom id.toNat j < k := hsteps ▸ hj
    have := hall _ hjk
    rwa [Ring.getElem_walk, Ring.shift_stepsFrom, Bool.not_eq_true'] at this
  · intro hall
    have hi := Ring.stepsFrom_lt id.toNat i
    refine ⟨Ring.stepsFrom id.toNat i, by simpa using hi, ?_, fun k hk => ?_⟩
    · rw [Ring.getElem_walk, Ring.shift_stepsFrom]
    · rw [Ring.getElem_walk, Bool.not_eq_true']
      refine hall _ ?_
      rw [Ring.Before, Ring.stepsFrom_shift]
      exact hk

/-- A search has no end if and only if it can end at no bucket. -/
theorem seat?_eq_none_iff {t : Roster buckets records} {id : NodeId} :
    t.seat? id = none ↔ ∀ i : Fin buckets, endsSearch id (t.index.get i) = false := by
  rw [seat?, List.find?_eq_none]
  constructor
  · intro h i
    exact Bool.eq_false_iff.mpr (h i (Ring.mem_walk _ i))
  · intro h i _
    rw [h i]
    exact Bool.false_ne_true

/-! ## Coherent rosters -/

/-- What holds of a roster after any operations, edits that change ids included. -/
structure Coherent (t : Roster buckets records) : Prop where
  chained : Chained t.index
  exists_cut : ∀ _ : Fin buckets, ∃ p, Cut t.index p
  nodup_ids : t.ids.Nodup
  nodup_handles : (t.entries.map Entry.handle ++ t.free).Nodup
  count_add_free : t.count + t.free.length = records

namespace Coherent

variable {t : Roster buckets records} {id : NodeId}

/-- Coherence does not depend on the records. -/
theorem of_eq {u : Roster buckets records} (h : t.Coherent) (hindex : u.index = t.index)
    (hfree : u.free = t.free) (hcount : u.count = t.count) : u.Coherent := by
  have hentries : u.entries = t.entries := by rw [entries, hindex, entries]
  refine ⟨?_, ?_, ?_, ?_, ?_⟩
  · rw [hindex]
    exact h.chained
  · rw [hindex]
    exact h.exists_cut
  · rw [ids, hentries]
    exact h.nodup_ids
  · rw [hentries, hfree]
    exact h.nodup_handles
  · rw [hcount, hfree]
    exact h.count_add_free

/-- A search for the key of an entry ends at the bucket of the entry. -/
theorem seat?_key (h : t.Coherent) {i : Fin buckets} {e : Entry records}
    (he : t.index.get i = some e) : t.seat? e.key = some i := by
  rw [seat?_eq_some_iff, he, endsSearch_some]
  refine ⟨beq_self_eq_true _, fun j hj => ?_⟩
  cases hd : t.index.get j with
  | none => exact absurd hd (h.chained i e he j hj)
  | some d =>
    rw [endsSearch_some, beq_eq_false_iff_ne]
    intro hkey
    have hji := bucket_eq_of_key_eq h.nodup_ids hd he hkey
    subst hji
    exact Ring.not_before_self _ _ hj

/-- A search for an id that is not in the index ends at an empty bucket. -/
theorem index_seat?_of_notMem {i : Fin buckets} (hi : t.seat? id = some i) (hid : id ∉ t.ids) :
    t.index.get i = none := by
  have hend := (seat?_eq_some_iff.mp hi).1
  cases he : t.index.get i with
  | none => rfl
  | some e =>
    rw [he, endsSearch_some, beq_iff_eq] at hend
    exact absurd (List.mem_map.mpr ⟨e, mem_inUse.mpr ⟨i, he⟩, hend⟩) hid

theorem find?_eq_some_iff (h : t.Coherent) {i : Fin buckets} {handle : Fin records} :
    t.find? id = some (i, handle) ↔
      ∃ e, t.index.get i = some e ∧
        e.key = id ∧ e.handle = handle ∧ (t.arena.get handle).id = id := by
  simp only [find?, Option.bind_eq_bind, Option.bind_eq_some_iff]
  constructor
  · rintro ⟨j, hj, e, he, hfound⟩
    split at hfound
    · next hid =>
      cases hfound
      have hend := (seat?_eq_some_iff.mp hj).1
      rw [he, endsSearch_some, beq_iff_eq] at hend
      exact ⟨e, he, hend, rfl, hid⟩
    · cases hfound
  · rintro ⟨e, he, rfl, rfl, hid⟩
    exact ⟨i, h.seat?_key he, e, he, if_pos hid⟩

/-- The peers of a coherent roster are the entries whose records are their own. -/
theorem get?_eq_some_iff (h : t.Coherent) {r : Record} :
    t.get? id = some r ↔
      ∃ e ∈ t.entries, e.key = id ∧ t.arena.get e.handle = r ∧ r.id = id := by
  rw [get?, Option.map_eq_some_iff]
  constructor
  · rintro ⟨⟨i, handle⟩, hfind, rfl⟩
    obtain ⟨e, he, hkey, rfl, hid⟩ := h.find?_eq_some_iff.mp hfind
    exact ⟨e, mem_inUse.mpr ⟨i, he⟩, hkey, rfl, hid⟩
  · rintro ⟨e, hmem, hkey, rfl, hid⟩
    obtain ⟨i, he⟩ := mem_inUse.mp hmem
    exact ⟨(i, e.handle), h.find?_eq_some_iff.mpr ⟨e, he, hkey, rfl, hid⟩, rfl⟩

/-- Handles of different entries differ. -/
theorem key_eq_of_handle_eq (h : t.Coherent) {d e : Entry records} (hd : d ∈ t.entries)
    (he : e ∈ t.entries) (heq : d.handle = e.handle) : d = e :=
  List.inj_on_of_nodup_map (List.nodup_append.mp h.nodup_handles).1 hd he heq

/-- There are no more entries than places claimed. -/
theorem length_entries_le_count (h : t.Coherent) : t.entries.length ≤ t.count := by
  have hlen := h.nodup_handles.length_le_card
  have hcount := h.count_add_free
  simp only [List.length_append, List.length_map, Fintype.card_fin] at hlen
  omega

end Coherent

end Roster

end PeerBeacon
