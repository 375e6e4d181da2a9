import PeerBeacon.Proofs.Roster.Memory

/-!
# Whatever is written into the records

A record that has been handed out can be overwritten in any way, its id included, and then the keys
of the index are not the ids of the records any more.  The bucket of such a record is found by no
search; the next request for its key lets the bucket lead to another place, and the first one stays
claimed although no bucket leads to it.  So keys and ids do not agree from then on, and there are
fewer peers in the index than places claimed.

What does not depend on the records is `Roster.Coherent`, and it suffices: every operation ends
without a fault in the memory of a coherent roster (`Roster.access_inMemory`).  `Memory.Sound` says
in terms of the memory alone what coherence comes to there, and `Roster.accessAll_sound` that every
sequence of operations on a memory without peers ends, without a fault, in a sound memory.
-/

namespace PeerBeacon

namespace Roster

/-! ## Operations -/

/-- An operation with what its caller does to the records that it hands out. -/
inductive Access where
  /-- Let a peer in and edit the record that is handed out. -/
  | insert (id : NodeId) (f : Record → Record)
  /-- Give a peer up. -/
  | erase (id : NodeId)
  /-- Ask for the record of a peer and edit it. -/
  | edit (id : NodeId) (f : Record → Record)
  /-- Look at the record of a peer. -/
  | look (id : NodeId)
  /-- Ask whether a peer is known. -/
  | contains (id : NodeId)
  /-- Enumerate the ids. -/
  | ids
  /-- Edit all records; the record that is visited after `k` others is edited by `f k`. -/
  | editAll (f : Nat → Record → Record)

/-- What the caller is told. -/
inductive Answer where
  /-- The record as it was handed out, if any. -/
  | record (r : Option Record)
  /-- Whether the peer is known. -/
  | known (b : Bool)
  | ids (ids : List NodeId)
  | nothing
  deriving DecidableEq, Repr

variable {buckets records : Nat}

/-- Performs an operation and lets the caller edit what it hands out. -/
def access (t : Roster buckets records) : Access → Roster buckets records × Answer
  | .insert id f =>
    let u := (t.insert id).state
    (u.modify id f, .record (u.get? id))
  | .erase id => (t.erase id, .known (t.erase? id).isSome)
  | .edit id f => (t.modify id f, .record (t.get? id))
  | .look id => (t, .record (t.get? id))
  | .contains id => (t, .known (t.contains id))
  | .ids => (t, .ids t.ids)
  | .editAll f => (t.mapIdx f, .nothing)

def accessAll (t : Roster buckets records) : List Access → Roster buckets records × List Answer
  | [] => (t, [])
  | a :: as =>
    let (u, answer) := t.access a
    let (v, answers) := accessAll u as
    (v, answer :: answers)

namespace Memory

/-- The record of a peer. -/
def look (m : Memory buckets records) (id : NodeId) : Except Fault (Option Record) := do
  let handle? ← m.seek id
  .ok (handle?.bind m.record?)

/-- Performs an operation in memory.  Edits go through the handle that the operation hands out. -/
def access (m : Memory buckets records) : Access → Except Fault (Memory buckets records × Answer)
  | .insert id f => do
    let (m, handle?) ← m.insert id
    let (m, r) ← m.through handle? f
    .ok (m, .record r)
  | .erase id => do
    let (m, known) ← m.erase id
    .ok (m, .known known)
  | .edit id f => do
    let handle? ← m.seek id
    let (m, r) ← m.through handle? f
    .ok (m, .record r)
  | .look id => do
    let r ← m.look id
    .ok (m, .record r)
  | .contains id => do
    let i ← m.find id
    .ok (m, .known i.isSome)
  | .ids => .ok (m, .ids m.ids)
  | .editAll f => .ok (m.editAll f, .nothing)

def accessAll (m : Memory buckets records) :
    List Access → Except Fault (Memory buckets records × List Answer)
  | [] => .ok (m, [])
  | a :: as => do
    let (m, answer) ← m.access a
    let (m, answers) ← accessAll m as
    .ok (m, answer :: answers)

/-- The key of a bucket in use. -/
def key (m : Memory buckets records) (i : Fin buckets) : NodeId :=
  (m.index.get i).key

/-- The handle of a bucket. -/
def handle (m : Memory buckets records) (i : Fin buckets) : UInt16 :=
  (m.index.get i).handle

/-- A bucket is in use. -/
def InUse (m : Memory buckets records) (i : Fin buckets) : Prop :=
  m.key i ≠ NodeId.reserved

/-- What holds in memory whatever is written into the records. -/
structure Sound (m : Memory buckets records) : Prop where
  /-- Buckets in use have different keys. -/
  key_inj : ∀ i j, m.InUse i → m.InUse j → m.key i = m.key j → i = j
  /-- Buckets in use have different handles. -/
  handle_inj : ∀ i j, m.InUse i → m.InUse j → m.handle i = m.handle j → i = j
  handle_lt : ∀ i, m.InUse i → (m.handle i).toNat < records
  /-- The place that a bucket in use leads to is not free. -/
  handle_notMem_free : ∀ i, m.InUse i → m.handle i ∉ m.free
  count_add_free : m.count + m.free.length = records
  /-- A record that carries the key of its bucket is found. -/
  look_key : ∀ i r, m.InUse i → m.record? (m.handle i) = some r → r.id = m.key i →
    m.look (m.key i) = .ok (some r)

end Memory

/-! ## Coherence in memory -/

section Memory

variable {t : Roster buckets records}

theorem get_index_inMemory (i : Fin buckets) :
    t.inMemory.index.get i = .ofEntry (t.index.get i) :=
  Vector.getElem_map _ i.isLt

/-- A bucket in use is the bucket of an entry. -/
theorem exists_entry_of_inUse {i : Fin buckets} (h : t.inMemory.InUse i) :
    ∃ e, t.index.get i = some e ∧ t.inMemory.key i = e.key ∧
      t.inMemory.handle i = handle16 e.handle := by
  cases he : t.index.get i with
  | none =>
    refine absurd ?_ h
    rw [Memory.key, get_index_inMemory, he, Bucket.key_ofEntry_none]
  | some e =>
    refine ⟨e, rfl, ?_, ?_⟩
    · rw [Memory.key, get_index_inMemory, he, Bucket.key_ofEntry_some]
    · rw [Memory.handle, get_index_inMemory, he, Bucket.handle_ofEntry_some]

theorem handle16_inj (hrecords : records ≤ 65536) {k l : Fin records} :
    handle16 k = handle16 l ↔ k = l := by
  rw [← UInt16.toNat_inj, toNat_handle16 hrecords, toNat_handle16 hrecords, Fin.ext_iff]

theorem look_inMemory (hrecords : records ≤ 65536) (id : NodeId) :
    t.inMemory.look id = .ok (t.get? id) := by
  rw [Memory.look, t.seek_inMemory hrecords, ok_bind, get?]
  cases t.find? id with
  | none => rfl
  | some found =>
    rw [Option.map_some, Option.bind_some, t.record?_inMemory hrecords, Option.map_some]

/-- A coherent roster lies sound in memory. -/
theorem Coherent.sound_inMemory (h : t.Coherent) (hrecords : records ≤ 65536) :
    t.inMemory.Sound where
  key_inj := by
    intro i j hi hj hkey
    obtain ⟨d, hd, hdkey, _⟩ := exists_entry_of_inUse hi
    obtain ⟨e, he, hekey, _⟩ := exists_entry_of_inUse hj
    rw [hdkey, hekey] at hkey
    exact bucket_eq_of_key_eq h.nodup_ids hd he hkey
  handle_inj := by
    intro i j hi hj hhandle
    obtain ⟨d, hd, _, hdhandle⟩ := exists_entry_of_inUse hi
    obtain ⟨e, he, _, hehandle⟩ := exists_entry_of_inUse hj
    rw [hdhandle, hehandle, handle16_inj hrecords] at hhandle
    have hde := h.key_eq_of_handle_eq (mem_inUse.mpr ⟨i, hd⟩) (mem_inUse.mpr ⟨j, he⟩) hhandle
    subst hde
    exact bucket_eq_of_key_eq h.nodup_ids hd he rfl
  handle_lt := by
    intro i hi
    obtain ⟨e, _, _, hhandle⟩ := exists_entry_of_inUse hi
    rw [hhandle]
    exact toNat_handle16_lt hrecords e.handle
  handle_notMem_free := by
    intro i hi hmem
    obtain ⟨e, he, _, hhandle⟩ := exists_entry_of_inUse hi
    obtain ⟨k, hk, heq⟩ := List.mem_map.mp hmem
    rw [hhandle, handle16_inj hrecords] at heq
    have hentry : e.handle ∈ t.entries.map Entry.handle :=
      List.mem_map_of_mem (mem_inUse.mpr ⟨i, he⟩)
    exact List.disjoint_of_nodup_append h.nodup_handles hentry (heq ▸ hk)
  count_add_free := by
    rw [inMemory, List.length_map]
    exact h.count_add_free
  look_key := by
    intro i r hi hr hid
    obtain ⟨e, he, hkey, hhandle⟩ := exists_entry_of_inUse hi
    rw [hhandle, t.record?_inMemory hrecords, Option.some_inj] at hr
    rw [hkey] at hid ⊢
    rw [look_inMemory hrecords]
    exact congrArg Except.ok (h.get?_eq_some_iff.mpr ⟨e, mem_inUse.mpr ⟨i, he⟩, rfl, hr, hid⟩)

end Memory

/-! ## Any sequence of operations -/

theorem Coherent.access {t : Roster buckets records} (h : t.Coherent) (a : Access) :
    (t.access a).1.Coherent := by
  cases a with
  | insert id f => exact (h.insert id).modify id f
  | erase id => exact h.erase id
  | edit id f => exact h.modify id f
  | look id => exact h
  | contains id => exact h
  | ids => exact h
  | editAll f => exact h.mapIdx f

/-- An operation on the memory of a coherent roster ends without a fault, in the memory of what the
operation makes of the roster, and with the same answer. -/
theorem access_inMemory (hrecords : records ≤ 65536) {t : Roster buckets records}
    (h : t.Coherent) (a : Access) :
    t.inMemory.access a = .ok ((t.access a).1.inMemory, (t.access a).2) := by
  cases a with
  | insert id f =>
    rw [Memory.access, t.insert_inMemory hrecords h, ok_bind]
    dsimp only
    rw [through_inMemory _ hrecords]
    rfl
  | erase id =>
    rw [Memory.access, t.erase_inMemory hrecords h]
    rfl
  | edit id f =>
    rw [Memory.access, t.seek_inMemory hrecords, ok_bind, t.through_inMemory hrecords]
    rfl
  | look id =>
    rw [Memory.access, look_inMemory hrecords]
    rfl
  | contains id =>
    rw [Memory.access, t.find_inMemory hrecords, ok_bind, Option.isSome_map]
    rfl
  | ids =>
    rw [Memory.access, ids_inMemory]
    rfl
  | editAll f =>
    rw [Memory.access, t.editAll_inMemory hrecords]
    rfl

theorem Coherent.accessAll {t : Roster buckets records} (h : t.Coherent) (accesses : List Access) :
    (t.accessAll accesses).1.Coherent := by
  induction accesses generalizing t with
  | nil => exact h
  | cons a as ih => exact ih (h.access a)

theorem accessAll_inMemory (hrecords : records ≤ 65536) {t : Roster buckets records}
    (h : t.Coherent) (accesses : List Access) :
    t.inMemory.accessAll accesses =
      .ok ((t.accessAll accesses).1.inMemory, (t.accessAll accesses).2) := by
  induction accesses generalizing t with
  | nil => rfl
  | cons a as ih =>
    rw [Memory.accessAll, access_inMemory hrecords h, ok_bind]
    dsimp only
    rw [ih (h.access a)]
    rfl

/-- No sequence of operations on a memory without peers ends in a fault, whatever the records are
overwritten with, and the memory that it ends in is sound. -/
theorem accessAll_sound (hrecords : records ≤ 65536) (accesses : List Access) :
    (Memory.empty buckets records).accessAll accesses =
        .ok (((empty buckets records).accessAll accesses).1.inMemory,
          ((empty buckets records).accessAll accesses).2) ∧
      ((empty buckets records).accessAll accesses).1.inMemory.Sound := by
  have hcoherent := Coherent.empty buckets records
  constructor
  · rw [← inMemory_empty]
    exact accessAll_inMemory hrecords hcoherent accesses
  · exact (hcoherent.accessAll accesses).sound_inMemory hrecords

/-- A record that is made to carry another id is found no more, and letting its peer in again claims
a second place under the same key. -/
theorem accessAll_sound_stale :
    2 ≤ 65536 ∧ ∃ m : Memory 2 2,
      (Memory.empty 2 2).accessAll
          [.insert 5 fun r => { r with id := 9 }, .contains 5, .insert 5 fun r => r, .ids] =
        .ok (m, [.record (some (.fresh 5)), .known false, .record (some (.fresh 5)), .ids [5]]) ∧
      m.Sound ∧ m.count = 2 := by
  have hsound := @accessAll_sound 2 2 (by decide)
    [.insert 5 fun r => { r with id := 9 }, .contains 5, .insert 5 fun r => r, .ids]
  exact ⟨by decide, _, hsound.1, hsound.2, by decide⟩

end Roster

end PeerBeacon
