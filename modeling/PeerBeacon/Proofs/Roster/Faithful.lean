import PeerBeacon.Proofs.Roster.Coherence

/-!
# Faithful rosters

As long as edits keep the ids of the records, every entry leads to the record of its own peer, and
every place of the arena is either free and vacant or belongs to exactly one entry
(`Roster.Faithful`).  A faithful roster is a finite map: `get?` is defined on exactly the listed
ids, and each operation changes it at one id only (`Roster.Faithful.get?_insert`,
`Roster.Faithful.get?_erase`, `Roster.Faithful.get?_modify`, `Roster.Faithful.get?_mapIdx`).
-/

namespace PeerBeacon

namespace Roster

variable {buckets records : Nat}

/-- What holds of a roster after operations that keep the ids of its records. -/
structure Faithful (t : Roster buckets records) : Prop extends t.Coherent where
  owner : ∀ e ∈ t.entries, (t.arena.get e.handle).id = e.key
  count_eq : t.count = t.entries.length
  vacant : ∀ h ∈ t.free, t.arena.get h = Record.vacant

namespace Faithful

variable {t : Roster buckets records} {id : NodeId}

/-! ## A faithful roster as a finite map -/

theorem find?_eq_some_iff (h : t.Faithful) {i : Fin buckets} {handle : Fin records} :
    t.find? id = some (i, handle) ↔
      ∃ e, t.index.get i = some e ∧ e.key = id ∧ e.handle = handle := by
  rw [h.toCoherent.find?_eq_some_iff]
  constructor
  · rintro ⟨e, he, hkey, hhandle, _⟩
    exact ⟨e, he, hkey, hhandle⟩
  · rintro ⟨e, he, rfl, rfl⟩
    exact ⟨e, he, rfl, rfl, h.owner e (mem_inUse.mpr ⟨i, he⟩)⟩

theorem get?_eq_some_iff (h : t.Faithful) {r : Record} :
    t.get? id = some r ↔ ∃ e ∈ t.entries, e.key = id ∧ t.arena.get e.handle = r := by
  rw [h.toCoherent.get?_eq_some_iff]
  constructor
  · rintro ⟨e, he, hkey, hr, _⟩
    exact ⟨e, he, hkey, hr⟩
  · rintro ⟨e, he, rfl, rfl⟩
    exact ⟨e, he, rfl, rfl, h.owner e he⟩

theorem get?_key (h : t.Faithful) {e : Entry records} (he : e ∈ t.entries) :
    t.get? e.key = some (t.arena.get e.handle) :=
  h.get?_eq_some_iff.mpr ⟨e, he, rfl, rfl⟩

/-- The listed ids are those of the known peers. -/
theorem mem_ids_iff (h : t.Faithful) : id ∈ t.ids ↔ (t.get? id).isSome := by
  rw [ids, List.mem_map, Option.isSome_iff_exists]
  constructor
  · rintro ⟨e, he, rfl⟩
    exact ⟨_, h.get?_key he⟩
  · rintro ⟨r, hr⟩
    obtain ⟨e, he, hkey, _⟩ := h.get?_eq_some_iff.mp hr
    exact ⟨e, he, hkey⟩

theorem get?_eq_none_iff (h : t.Faithful) : t.get? id = none ↔ id ∉ t.ids := by
  rw [h.mem_ids_iff, Option.not_isSome_iff_eq_none]

theorem find?_eq_none_iff (h : t.Faithful) : t.find? id = none ↔ id ∉ t.ids := by
  rw [← h.get?_eq_none_iff, get?, Option.map_eq_none_iff]

theorem reserved_notMem_ids (t : Roster buckets records) : NodeId.reserved ∉ t.ids := by
  intro hmem
  obtain ⟨e, _, hkey⟩ := List.mem_map.mp hmem
  exact e.key_ne_reserved hkey

/-- The records and the ids are enumerated in the same order. -/
theorem map_some_tracked (h : t.Faithful) : t.tracked.map some = t.ids.map t.get? := by
  rw [tracked, ids, List.map_map, List.map_map]
  exact List.map_congr_left fun e he => (h.get?_key he).symm

theorem tracked_eq (h : t.Faithful) : t.tracked = t.ids.filterMap t.get? := by
  have hall := congrArg (List.filterMap fun r => r) h.map_some_tracked
  rw [List.filterMap_map, List.filterMap_map] at hall
  exact List.filterMap_some.symm.trans hall

theorem map_id_tracked (h : t.Faithful) : t.tracked.map Record.id = t.ids := by
  rw [tracked, ids, List.map_map]
  exact List.map_congr_left fun e he => h.owner e he

theorem length_ids (h : t.Faithful) : t.ids.length = t.count := by
  rw [ids, List.length_map, h.count_eq]

/-- A roster never holds more peers than it has room for. -/
theorem count_le_capacity (h : t.Faithful) : t.count ≤ t.capacity := by
  have hbuckets : t.entries.length ≤ buckets := length_inUse_le t.index
  have hrecords := h.count_add_free
  have hcount := h.count_eq
  rw [capacity]
  omega

/-- A place in use is not free. -/
theorem handle_notMem_free (h : t.Faithful) {e : Entry records} (he : e ∈ t.entries) :
    e.handle ∉ t.free := fun hfree =>
  (List.nodup_append.mp h.nodup_handles).2.2 _ (List.mem_map.mpr ⟨e, he, rfl⟩) _ hfree rfl

/-! ## Writing a record -/

/-- Writing the record of an entry, its id kept, changes the answer for that entry only. -/
theorem setRecord (h : t.Faithful) {e : Entry records} (he : e ∈ t.entries) {r : Record}
    (hr : r.id = e.key) : { t with arena := overwrite t.arena e.handle r }.Faithful := by
  refine ⟨h.of_eq rfl rfl rfl, ?_, h.count_eq, ?_⟩
  · intro d hd
    have hd' : d ∈ t.entries := hd
    dsimp only
    rw [get_overwrite]
    split
    · next heq => rw [hr, h.key_eq_of_handle_eq hd' he heq]
    · exact h.owner d hd'
  · intro k hk
    dsimp only
    rw [get_overwrite, if_neg]
    · exact h.vacant k hk
    · rintro rfl
      exact h.handle_notMem_free he hk

theorem get?_setRecord (h : t.Faithful) {e : Entry records} (he : e ∈ t.entries) {r : Record}
    (hr : r.id = e.key) (id : NodeId) :
    { t with arena := overwrite t.arena e.handle r }.get? id =
      if id = e.key then some r else t.get? id := by
  have hset := h.setRecord he hr
  split
  · next hid =>
    refine hset.get?_eq_some_iff.mpr ⟨e, he, hid.symm, ?_⟩
    dsimp only
    rw [get_overwrite, if_pos rfl]
  · next hid =>
    refine Option.ext fun x => ?_
    rw [hset.get?_eq_some_iff, h.get?_eq_some_iff]
    refine exists_congr fun d => and_congr_right fun hd => and_congr_right fun hkey => ?_
    have hne : d.handle ≠ e.handle := by
      intro heq
      rw [h.key_eq_of_handle_eq hd he heq] at hkey
      exact hid hkey.symm
    dsimp only
    rw [get_overwrite, if_neg hne]

/-! ## Editing the record of a peer -/

theorem modify_of_mem {e : Entry records} (h : t.Faithful) (he : e ∈ t.entries)
    (f : Record → Record) :
    t.modify e.key f =
      { t with arena := overwrite t.arena e.handle (f (t.arena.get e.handle)) } := by
  obtain ⟨i, hi⟩ := mem_inUse.mp he
  have hfind := h.find?_eq_some_iff.mpr ⟨e, hi, rfl, rfl⟩
  rw [Roster.modify, hfind]

theorem modify_of_notMem (h : t.Faithful) (hid : id ∉ t.ids) (f : Record → Record) :
    t.modify id f = t := by
  rw [Roster.modify, h.find?_eq_none_iff.mpr hid]

/-- An edit that keeps the id keeps a roster faithful. -/
theorem modify (h : t.Faithful) {f : Record → Record}
    (hf : ∀ r, t.get? id = some r → (f r).id = id) : (t.modify id f).Faithful := by
  by_cases hid : id ∈ t.ids
  · obtain ⟨e, he, rfl⟩ := List.mem_map.mp hid
    rw [h.modify_of_mem he]
    exact h.setRecord he (hf _ (h.get?_key he))
  · rw [h.modify_of_notMem hid]
    exact h

theorem get?_modify (h : t.Faithful) {f : Record → Record}
    (hf : ∀ r, t.get? id = some r → (f r).id = id) (id' : NodeId) :
    (t.modify id f).get? id' = if id' = id then (t.get? id).map f else t.get? id' := by
  by_cases hid : id ∈ t.ids
  · obtain ⟨e, he, rfl⟩ := List.mem_map.mp hid
    rw [h.modify_of_mem he, h.get?_setRecord he (hf _ (h.get?_key he)), h.get?_key he,
      Option.map_some]
  · rw [h.modify_of_notMem hid]
    split
    · next heq =>
      rw [heq, h.get?_eq_none_iff.mpr hid, Option.map_none]
    · rfl

/-! ## Editing every record -/

/-- A fold of edits over entries leaves a place alone that none of them leads to. -/
theorem get_foldl_overwrite_of_notMem (f : Nat → Record → Record) (k : Fin records) :
    ∀ (l : List (Entry records × Nat)) (arena : Vector Record records),
      (∀ p ∈ l, p.1.handle ≠ k) →
        (l.foldl (fun a p => overwrite a p.1.handle (f p.2 (a.get p.1.handle))) arena).get k =
          arena.get k := by
  intro l
  induction l with
  | nil => exact fun _ _ => rfl
  | cons p l ih =>
    intro arena hk
    rw [List.foldl_cons, ih _ fun q hq => hk q (List.mem_cons_of_mem _ hq), get_overwrite,
      if_neg (hk p List.mem_cons_self).symm]

/-- A fold of edits over entries with different handles edits the record of each of them once. -/
theorem get_foldl_overwrite_of_mem (f : Nat → Record → Record) {p : Entry records × Nat} :
    ∀ (l : List (Entry records × Nat)) (arena : Vector Record records),
      (l.map fun q => q.1.handle).Nodup → p ∈ l →
        (l.foldl (fun a q => overwrite a q.1.handle (f q.2 (a.get q.1.handle))) arena).get
            p.1.handle =
          f p.2 (arena.get p.1.handle) := by
  intro l
  induction l with
  | nil => exact fun _ _ hp => absurd hp List.not_mem_nil
  | cons q l ih =>
    intro arena hnodup hp
    rw [List.map_cons, List.nodup_cons] at hnodup
    have hnotin : ∀ r ∈ l, r.1.handle ≠ q.1.handle := fun r hr heq =>
      hnodup.1 (List.mem_map.mpr ⟨r, hr, heq⟩)
    rw [List.foldl_cons]
    rcases List.mem_cons.mp hp with rfl | hp
    · rw [get_foldl_overwrite_of_notMem f _ l _ hnotin, get_overwrite, if_pos rfl]
    · rw [ih _ hnodup.2 hp, get_overwrite, if_neg (hnotin p hp)]

/-- The record of the entry at place `k` is edited by `f k`. -/
theorem arena_mapIdx (h : t.Faithful) (f : Nat → Record → Record) {k : Nat} {e : Entry records}
    (hk : t.entries[k]? = some e) :
    (t.mapIdx f).arena.get e.handle = f k (t.arena.get e.handle) := by
  have hmem : (e, k) ∈ t.entries.zipIdx := List.mem_zipIdx_iff_getElem?.mpr hk
  have hnodup : (t.entries.zipIdx.map fun q => q.1.handle).Nodup := by
    have hfst : (t.entries.zipIdx.map fun q => q.1.handle) = t.entries.map Entry.handle := by
      have := congrArg (List.map Entry.handle) (List.zipIdx_map_fst 0 t.entries)
      rwa [List.map_map] at this
    rw [hfst]
    exact (List.nodup_append.mp h.nodup_handles).1
  exact get_foldl_overwrite_of_mem f _ t.arena hnodup hmem

theorem mapIdx (h : t.Faithful) {f : Nat → Record → Record}
    (hf : ∀ k r, (f k r).id = r.id) : (t.mapIdx f).Faithful := by
  refine ⟨h.toCoherent.mapIdx f, ?_, h.count_eq, ?_⟩
  · intro e he
    have he' : e ∈ t.entries := he
    obtain ⟨k, hk⟩ := List.mem_iff_getElem?.mp he'
    rw [h.arena_mapIdx f hk, hf, h.owner e he']
  · intro k hk
    have hk' : k ∈ t.free := hk
    have hkeep : (t.mapIdx f).arena.get k = t.arena.get k := by
      refine get_foldl_overwrite_of_notMem f k _ t.arena fun p hp => ?_
      have hmem : p.1 ∈ t.entries := List.mem_of_getElem? (List.mem_zipIdx_iff_getElem?.mp hp)
      rintro rfl
      exact h.handle_notMem_free hmem hk'
    rw [hkeep, h.vacant k hk']

/-- Editing every record edits the record of each peer by the place of the peer in the list. -/
theorem get?_mapIdx (h : t.Faithful) {f : Nat → Record → Record}
    (hf : ∀ k r, (f k r).id = r.id) (id : NodeId) :
    (t.mapIdx f).get? id = (t.get? id).map (f (t.ids.idxOf id)) := by
  have hmap := h.mapIdx hf
  by_cases hid : id ∈ t.ids
  · obtain ⟨e, he, rfl⟩ := List.mem_map.mp hid
    have hlt := List.idxOf_lt_length_of_mem hid
    have hkey : t.ids[t.ids.idxOf e.key] = e.key := List.getElem_idxOf hlt
    have hplace : t.entries[t.ids.idxOf e.key]? = some e := by
      have hlt' : t.ids.idxOf e.key < t.entries.length := by simpa [ids] using hlt
      rw [List.getElem?_eq_getElem hlt', Option.some_inj]
      refine List.inj_on_of_nodup_map h.nodup_ids (List.getElem_mem hlt') he ?_
      simpa only [ids, List.getElem_map] using hkey
    have he' : e ∈ (t.mapIdx f).entries := he
    rw [hmap.get?_key he', h.arena_mapIdx f hplace, h.get?_key he, Option.map_some]
  · have hid' : id ∉ (t.mapIdx f).ids := hid
    rw [hmap.get?_eq_none_iff.mpr hid', h.get?_eq_none_iff.mpr hid, Option.map_none]

theorem get?_map (h : t.Faithful) {f : Record → Record} (hf : ∀ r, (f r).id = r.id)
    (id : NodeId) : (t.map f).get? id = (t.get? id).map f :=
  h.get?_mapIdx (f := fun _ => f) (fun _ => hf) id

theorem map (h : t.Faithful) {f : Record → Record} (hf : ∀ r, (f r).id = r.id) :
    (t.map f).Faithful :=
  h.mapIdx (f := fun _ => f) fun _ => hf

end Faithful

end Roster

end PeerBeacon
