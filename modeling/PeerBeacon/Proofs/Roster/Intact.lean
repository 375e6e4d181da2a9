import PeerBeacon.Proofs.Roster.Stranded

/-!
# Memory that is kept intact

As long as nobody writes another id into a record, the memory of a roster is in the shape that its
readers expect (`Memory.Intact`): a search for a key meets no empty bucket before the bucket of the
key, every bucket in use leads to the record of its own peer, every place of the arena is listed
once, by a bucket in use or as free, and free places are vacant.  No sequence of operations leaves
that shape (`Roster.accessAll_intact`).

The shape alone is not what an induction can run on.  In a full ring it says nothing about where the
keys sit, and there are full memories in that shape from which giving up a peer leaves a key behind
an empty bucket (`Memory.not_intact_of_erase`).  No history leads to them, since a ring is filled
one bucket at a time and some bucket was filled last (`Roster.Cut`).  So the steps are taken by
`Roster.Faithful`, which has that cut, and the shape is read off in the end
(`Roster.Faithful.intact_inMemory`).
-/

namespace PeerBeacon

namespace Roster

variable {buckets records : Nat}

/-! ## Operations that keep ids -/

/-- The edits that come with an operation keep the ids of the records. -/
def Access.KeepsIds : Access → Prop
  | .insert id f | .edit id f => ∀ r, r.id = id → (f r).id = id
  | .editAll f => ∀ k r, (f k r).id = r.id
  | .erase _ | .look _ | .contains _ | .ids => True

section Faithful

variable {t : Roster buckets records}

theorem Faithful.access (h : t.Faithful) {a : Access} (keeps : a.KeepsIds) :
    (t.access a).1.Faithful := by
  cases a with
  | insert id f => exact (h.insert id).modify fun r hr => keeps r (id_of_get? hr)
  | erase id => exact h.erase id
  | edit id f => exact h.modify fun r hr => keeps r (id_of_get? hr)
  | look id => exact h
  | contains id => exact h
  | ids => exact h
  | editAll f => exact h.mapIdx keeps

theorem Faithful.accessAll (h : t.Faithful) {accesses : List Access}
    (keeps : ∀ a ∈ accesses, a.KeepsIds) : (t.accessAll accesses).1.Faithful := by
  induction accesses generalizing t with
  | nil => exact h
  | cons a as ih =>
    obtain ⟨hfirst, hrest⟩ := List.forall_mem_cons.mp keeps
    exact ih (h.access hfirst) hrest

end Faithful

namespace Memory

/-- The buckets in use, in index order. -/
def inUse (m : Memory buckets records) : List Bucket :=
  m.index.toList.filter (·.key ≠ NodeId.reserved)

/-- What holds in memory as long as edits keep the ids of the records. -/
structure Intact (m : Memory buckets records) : Prop where
  /-- The buckets that a search for a key meets before the bucket of the key are in use. -/
  chained : ∀ i j, m.InUse i → Ring.Before (m.key i).toNat j i → m.InUse j
  /-- Buckets in use have different keys. -/
  key_inj : ∀ i j, m.InUse i → m.InUse j → m.key i = m.key j → i = j
  /-- A bucket in use leads to a record that carries its key. -/
  owner : ∀ i, m.InUse i → (m.record? (m.handle i)).map Record.id = some (m.key i)
  /-- The handles of the buckets in use and the free places are all places, once each. -/
  places : ((m.inUse.map Bucket.handle ++ m.free).map UInt16.toNat).Perm (List.range records)
  vacant : ∀ handle ∈ m.free, m.record? handle = some Record.vacant
  count_eq : m.count = m.inUse.length

/-- Three peers in three buckets, each two steps away from where its walk begins. -/
def displaced : Memory 3 3 where
  index := #v[⟨1, 0⟩, ⟨2, 1⟩, ⟨3, 2⟩]
  arena := #v[.fresh 1, .fresh 2, .fresh 3]
  free := []
  count := 3
  refusals := 0

/-- Being intact is not kept by operations: the search for peer 3 begins at the first bucket, which
is empty once peer 2 is given up. -/
theorem not_intact_of_erase :
    displaced.Intact ∧ ∃ m, displaced.erase 2 = .ok (m, true) ∧ ¬m.Intact := by
  have hfull : ∀ i, displaced.InUse i := by
    unfold InUse
    decide
  constructor
  · exact
      { chained := fun i j _ _ => hfull j
        key_inj := by
          unfold InUse
          decide
        owner := by
          unfold InUse
          decide
        places := by decide
        vacant := fun _ hfree => absurd hfree List.not_mem_nil
        count_eq := by decide }
  · refine ⟨{ index := #v[.vacant, ⟨3, 2⟩, ⟨1, 0⟩]
              arena := #v[.fresh 1, .vacant, .fresh 3]
              free := [1]
              count := 2
              refusals := 0 }, by decide, fun h => ?_⟩
    refine h.chained 1 0 ?_ (by decide) (by decide)
    unfold InUse
    decide

end Memory

/-! ## Faithful rosters in memory -/

section Memory

variable {t : Roster buckets records}

theorem inUse_inMemory_iff {i : Fin buckets} : t.inMemory.InUse i ↔ t.index.get i ≠ none := by
  constructor
  · intro h
    obtain ⟨e, he, _, _⟩ := exists_entry_of_inUse h
    rw [he]
    exact Option.some_ne_none e
  · intro h
    obtain ⟨e, he⟩ := Option.ne_none_iff_exists'.mp h
    rw [Memory.InUse, Memory.key, get_index_inMemory, he]
    exact e.key_ne_reserved

theorem inUse_inMemory (t : Roster buckets records) :
    t.inMemory.inUse = t.entries.map fun e => Bucket.ofEntry (some e) := by
  rw [Memory.inUse, toList_index_inMemory]
  exact filter_map_ofEntry t.index.toList

/-- In memory, too, the places that buckets lead to and those that are free are all places. -/
theorem Faithful.perm_places (h : t.Faithful) (hrecords : records ≤ 65536) :
    ((t.inMemory.inUse.map Bucket.handle ++ t.inMemory.free).map UInt16.toNat).Perm
      (List.range records) := by
  have hplaces : (t.entries.map Entry.handle ++ t.free).Perm (List.finRange records) := by
    refine (List.perm_ext_iff_of_nodup h.nodup_handles (List.nodup_finRange records)).mpr
      fun place => iff_of_true ?_ (List.mem_finRange place)
    rw [List.mem_append, List.mem_map, or_comm]
    exact h.balanced.free_or_led_to place
  have hlist : t.inMemory.inUse.map Bucket.handle ++ t.inMemory.free =
      (t.entries.map Entry.handle ++ t.free).map handle16 := by
    rw [inUse_inMemory, List.map_map, List.map_append, List.map_map]
    rfl
  have hvalues : (UInt16.toNat ∘ handle16 : Fin records → Nat) = Fin.val :=
    funext (toNat_handle16 hrecords)
  rw [hlist, List.map_map, hvalues, ← List.map_coe_finRange_eq_range]
  exact hplaces.map Fin.val

/-- A faithful roster lies intact in memory. -/
theorem Faithful.intact_inMemory (h : t.Faithful) (hrecords : records ≤ 65536) :
    t.inMemory.Intact where
  chained := by
    intro i j hi hbefore
    obtain ⟨e, he, hkey, _⟩ := exists_entry_of_inUse hi
    rw [hkey] at hbefore
    exact inUse_inMemory_iff.mpr (h.chained i e he j hbefore)
  key_inj := (h.toCoherent.sound_inMemory hrecords).key_inj
  owner := by
    intro i hi
    obtain ⟨e, he, hkey, hhandle⟩ := exists_entry_of_inUse hi
    rw [hhandle, hkey, t.record?_inMemory hrecords, Option.map_some,
      h.owner e (mem_inUse.mpr ⟨i, he⟩)]
  places := h.perm_places hrecords
  vacant := by
    intro handle hmem
    obtain ⟨place, hplace, rfl⟩ := List.mem_map.mp hmem
    rw [t.record?_inMemory hrecords, h.vacant place hplace]
  count_eq := by
    rw [inUse_inMemory, List.length_map]
    exact h.count_eq

end Memory

/-! ## Any sequence of operations -/

/-- **A memory stays intact.**  From a memory without peers on, no sequence of operations whose
edits keep the ids of the records ends in a fault, and the memory that it ends in is intact. -/
theorem accessAll_intact (hrecords : records ≤ 65536) {accesses : List Access}
    (keeps : ∀ a ∈ accesses, a.KeepsIds) :
    ∃ m answers, (Memory.empty buckets records).accessAll accesses = .ok (m, answers) ∧
      m.Intact := by
  have hfaithful := (Faithful.empty buckets records).accessAll keeps
  refine ⟨_, ((empty buckets records).accessAll accesses).2, ?_,
    hfaithful.intact_inMemory hrecords⟩
  rw [← inMemory_empty]
  exact accessAll_inMemory hrecords (Coherent.empty buckets records) accesses

/-- Peers that all want the last of four buckets, one of which comes too late and two of which are
given up; a peer that wants another bucket finds it taken. -/
def crowded : List Access :=
  [.insert 3 fun r => r, .insert 7 fun r => r, .insert 11 fun r => r, .insert 19 fun r => r,
    .insert 23 fun r => r, .erase 7, .edit 11 fun r => { r with lastHeard := some 9 },
    .insert 2 fun r => r, .erase 3]

/-- Around the end of a ring that was full, the peers that stay are moved up. -/
theorem accessAll_intact_crowded :
    4 ≤ 65536 ∧ (∀ a ∈ crowded, a.KeepsIds) ∧
      ∃ m answers, (Memory.empty 4 4).accessAll crowded = .ok (m, answers) ∧ m.Intact ∧
        m.inUse = [⟨19, 3⟩, ⟨2, 1⟩, ⟨11, 2⟩] ∧ m.free = [0] ∧ m.count = 3 := by
  have hkeeps : ∀ a ∈ crowded, a.KeepsIds := by
    simp [crowded, Access.KeepsIds]
  obtain ⟨m, answers, hrun, hm⟩ := @accessAll_intact 4 4 (by decide) crowded hkeeps
  have hbooks : ((Memory.empty 4 4).accessAll crowded).map
      (fun found => (found.1.inUse, found.1.free, found.1.count)) =
        .ok ([⟨19, 3⟩, ⟨2, 1⟩, ⟨11, 2⟩], [0], 3) := by
    rfl
  rw [hrun, Except.map, Except.ok.injEq, Prod.mk.injEq, Prod.mk.injEq] at hbooks
  exact ⟨by decide, hkeeps, m, answers, hrun, hm, hbooks⟩

end Roster

end PeerBeacon
