import PeerBeacon.Proofs.Roster.Coherence

/-!
# The roster as it lies in memory

A roster cannot go wrong: a handle is a place of its arena by its type, a search walks the ring by a
list of its positions, and one less than zero is zero.  The memory of a node gives no such warrant.
There a bucket is a key and a handle of 16 bits, positions are plain numbers that are reduced modulo
the number of buckets after each step, and the list of free places has room for as many as there are
records.  Reading or writing where nothing is, a remainder modulo zero and counting down from zero
stop a node, and a place that is given back to a full list is lost; `Roster.Fault` names all of them.

`Roster.Memory` has the operations in these terms, step by step, each of which may end in a fault.
`Roster.inMemory` lays a roster out in memory.  On a coherent roster each operation on the memory
ends without a fault, and in the memory of what the operation makes of the roster
(`Roster.insert_inMemory`, `Roster.erase_inMemory`, `Roster.through_inMemory`,
`Roster.editAll_inMemory`).
-/

namespace PeerBeacon

namespace Roster

/-- What can go wrong in memory. -/
inductive Fault where
  /-- A remainder modulo zero: there are no buckets. -/
  | noBuckets
  /-- There is no such bucket. -/
  | noBucket (i : Nat)
  /-- There is no such place in the arena. -/
  | noPlace (handle : UInt16)
  /-- The count of places claimed falls below zero. -/
  | countBelowZero
  /-- The list of free places is full. -/
  | freeListFull
  deriving DecidableEq, Repr

/-- A bucket of the index; the reserved id is the key of an empty one. -/
structure Bucket where
  key : NodeId
  handle : UInt16
  deriving DecidableEq, Repr

/-- An empty bucket. -/
def Bucket.vacant : Bucket where
  key := NodeId.reserved
  handle := 0

/-- The memory of a roster. -/
structure Memory (buckets records : Nat) where
  index : Vector Bucket buckets
  arena : Vector Record records
  /-- The free places, the one to be claimed next first. -/
  free : List UInt16
  count : Nat
  refusals : UInt32
  deriving DecidableEq, Repr

namespace Memory

variable {buckets records : Nat}

/-- The memory of a roster of no peers. -/
def empty (buckets records : Nat) : Memory buckets records where
  index := Vector.replicate buckets .vacant
  arena := Vector.replicate records Record.vacant
  free := (List.range records).map UInt16.ofNat
  count := 0
  refusals := 0

/-! ## Access to buckets and records -/

/-- A number as a position of the ring. -/
def position (buckets n : Nat) : Except Fault Nat :=
  if buckets = 0 then .error .noBuckets else .ok (n % buckets)

def bucket (m : Memory buckets records) (i : Nat) : Except Fault Bucket :=
  if h : i < buckets then .ok m.index[i] else .error (.noBucket i)

def setBucket (m : Memory buckets records) (i : Nat) (b : Bucket) :
    Except Fault (Memory buckets records) :=
  if h : i < buckets then .ok { m with index := m.index.set i b } else .error (.noBucket i)

/-- The record at a place, if there is such a place. -/
def record? (m : Memory buckets records) (handle : UInt16) : Option Record :=
  m.arena[handle.toNat]?

def setRecord (m : Memory buckets records) (handle : UInt16) (r : Record) :
    Except Fault (Memory buckets records) :=
  if h : handle.toNat < records then .ok { m with arena := m.arena.set handle.toNat r }
  else .error (.noPlace handle)

/-- Gives a place back. -/
def pushFree (m : Memory buckets records) (handle : UInt16) :
    Except Fault (Memory buckets records) :=
  if m.free.length < records then .ok { m with free := handle :: m.free }
  else .error .freeListFull

def countDown (m : Memory buckets records) : Except Fault (Memory buckets records) :=
  if m.count = 0 then .error .countBelowZero else .ok { m with count := m.count - 1 }

/-! ## Search -/

/-- Searches `steps` buckets from position `i` on.  A bucket that leads to the record of another
peer ends the search without success. -/
def findFrom (m : Memory buckets records) (id : NodeId) : Nat → Nat → Except Fault (Option Nat)
  | 0, _ => .ok none
  | steps + 1, i => do
    let b ← m.bucket i
    if b.key = id then
      .ok (if (m.record? b.handle).map Record.id = some id then some i else none)
    else if b.key = NodeId.reserved then
      .ok none
    else
      m.findFrom id steps (← position buckets (i + 1))

/-- The bucket of a peer. -/
def find (m : Memory buckets records) (id : NodeId) : Except Fault (Option Nat) :=
  if id = NodeId.reserved ∨ buckets = 0 then .ok none
  else do m.findFrom id buckets (← position buckets id.toNat)

/-- Looks for an empty bucket or one with the key `id`, in `steps` buckets from position `i` on. -/
def vacancyFrom (m : Memory buckets records) (id : NodeId) : Nat → Nat → Except Fault (Option Nat)
  | 0, _ => .ok none
  | steps + 1, i => do
    let b ← m.bucket i
    if b.key = NodeId.reserved ∨ b.key = id then
      .ok (some i)
    else
      m.vacancyFrom id steps (← position buckets (i + 1))

/-- The bucket that a new peer can take. -/
def vacancy (m : Memory buckets records) (id : NodeId) : Except Fault (Option Nat) :=
  if buckets = 0 then .ok none
  else do m.vacancyFrom id buckets (← position buckets id.toNat)

/-- The place of the record of a peer. -/
def seek (m : Memory buckets records) (id : NodeId) : Except Fault (Option UInt16) := do
  match ← m.find id with
  | none => .ok none
  | some i =>
    let b ← m.bucket i
    .ok (if b.handle.toNat < records then some b.handle else none)

/-! ## Changes -/

/-- Lets a peer in with a fresh record, and gives the place of the record. -/
def insert (m : Memory buckets records) (id : NodeId) :
    Except Fault (Memory buckets records × Option UInt16) :=
  if id = NodeId.reserved then .ok (m, none)
  else do
    match ← m.find id with
    | some i =>
      let b ← m.bucket i
      if b.handle.toNat < records then
        let m ← m.setRecord b.handle (.fresh id)
        .ok (m, some b.handle)
      else
        .ok (m, none)
    | none =>
      match ← m.vacancy id, m.free with
      | some i, handle :: free =>
        let m ← setBucket { m with free } i { key := id, handle }
        let m ← setRecord { m with count := m.count + 1 } handle (.fresh id)
        .ok (m, some handle)
      | _, _ => .ok ({ m with refusals := m.refusals + 1 }, none)

/-- Position `i` lies behind `start` and not behind `stop` on the way around the ring. -/
def isBetween (start stop i : Nat) : Bool :=
  if start ≤ stop then decide (start < i ∧ i ≤ stop) else decide (start < i ∨ i ≤ stop)

/-- Closes the gap at bucket `gap`, looking at `steps` buckets from position `i` on. -/
def closeFrom : Nat → Memory buckets records → Nat → Nat → Except Fault (Memory buckets records)
  | 0, m, _, _ => .ok m
  | steps + 1, m, gap, i => do
    let b ← m.bucket i
    if b.key = NodeId.reserved then
      .ok m
    else
      let home ← position buckets b.key.toNat
      if isBetween gap i home then
        closeFrom steps m gap (← position buckets (i + 1))
      else
        let m ← m.setBucket gap b
        let m ← m.setBucket i .vacant
        closeFrom steps m i (← position buckets (i + 1))

/-- Gives up a peer, and tells whether it was known. -/
def erase (m : Memory buckets records) (id : NodeId) :
    Except Fault (Memory buckets records × Bool) := do
  match ← m.find id with
  | none => .ok (m, false)
  | some gap =>
    let b ← m.bucket gap
    let m ← m.setRecord b.handle .vacant
    let m ← m.pushFree b.handle
    let m ← m.setBucket gap .vacant
    let m ← m.countDown
    let m ← closeFrom (buckets - 1) m gap (← position buckets (gap + 1))
    .ok (m, true)

/-- Edits the record at a place that was handed out, and gives the record as it was. -/
def through (m : Memory buckets records) (handle? : Option UInt16) (f : Record → Record) :
    Except Fault (Memory buckets records × Option Record) :=
  match handle? with
  | none => .ok (m, none)
  | some handle =>
    match m.record? handle with
    | none => .error (.noPlace handle)
    | some r => do
      let m ← m.setRecord handle (f r)
      .ok (m, some r)

/-- Edits the records that some buckets lead to; `f` is told how many came before. -/
def editAlong (f : Nat → Record → Record) :
    List Bucket → Nat → Vector Record records → Vector Record records
  | [], _, arena => arena
  | b :: bs, k, arena =>
    if b.key = NodeId.reserved then editAlong f bs k arena
    else if h : b.handle.toNat < records then
      editAlong f bs (k + 1) (arena.set b.handle.toNat (f k arena[b.handle.toNat]))
    else editAlong f bs k arena

/-- Edits the record of each bucket in use, in index order. -/
def editAll (m : Memory buckets records) (f : Nat → Record → Record) : Memory buckets records :=
  { m with arena := editAlong f m.index.toList 0 m.arena }

/-- The keys of the buckets in use, in index order. -/
def ids (m : Memory buckets records) : List NodeId :=
  (m.index.toList.filter (·.key ≠ NodeId.reserved)).map Bucket.key

end Memory

variable {buckets records : Nat}

/-! ## What a search finds -/

@[simp] theorem endsSearch_none (id : NodeId) :
    endsSearch id (none : Option (Entry records)) = true := rfl

/-- A search that succeeds ends at a bucket with the key searched for. -/
theorem key_of_find? {t : Roster buckets records} {id : NodeId} {found : Fin buckets × Fin records}
    (h : t.find? id = some found) :
    ∃ e, t.index.get found.1 = some e ∧ e.key = id ∧ e.handle = found.2 := by
  simp only [find?, Option.bind_eq_bind, Option.bind_eq_some_iff] at h
  obtain ⟨i, hi, e, he, hfound⟩ := h
  have hend := (seat?_eq_some_iff.mp hi).1
  rw [he, endsSearch_some, beq_iff_eq] at hend
  split at hfound
  · cases hfound
    exact ⟨e, he, hend, rfl⟩
  · cases hfound

theorem find?_reserved (t : Roster buckets records) : t.find? NodeId.reserved = none := by
  refine Option.eq_none_iff_forall_ne_some.mpr fun found hfound => ?_
  obtain ⟨e, _, hkey, _⟩ := key_of_find? hfound
  exact e.key_ne_reserved hkey

/-! ## Laying a roster out -/

/-- A handle in 16 bits. -/
def handle16 (handle : Fin records) : UInt16 :=
  UInt16.ofNat handle

/-- A bucket as it lies in memory. -/
def Bucket.ofEntry : Option (Entry records) → Bucket
  | none => .vacant
  | some e => { key := e.key, handle := handle16 e.handle }

theorem Bucket.key_ofEntry_none :
    (Bucket.ofEntry (none : Option (Entry records))).key = NodeId.reserved := rfl

theorem Bucket.key_ofEntry_some (e : Entry records) : (Bucket.ofEntry (some e)).key = e.key := rfl

theorem Bucket.handle_ofEntry_some (e : Entry records) :
    (Bucket.ofEntry (some e)).handle = handle16 e.handle := rfl

/-- A roster as it lies in memory. -/
def inMemory (t : Roster buckets records) : Memory buckets records where
  index := t.index.map Bucket.ofEntry
  arena := t.arena
  free := t.free.map handle16
  count := t.count
  refusals := t.refusals

theorem ok_bind {α β : Type} (a : α) (f : α → Except Fault β) : (Except.ok a >>= f) = f a :=
  rfl

theorem inMemory_empty (buckets records : Nat) :
    (empty buckets records).inMemory = Memory.empty buckets records := by
  have hfree : (List.finRange records).map handle16 = (List.range records).map UInt16.ofNat := by
    rw [← List.map_coe_finRange_eq_range, List.map_map]
    rfl
  rw [inMemory, empty, Memory.empty, Vector.map_replicate, hfree]
  rfl

section Layout

variable (t : Roster buckets records)

theorem bucket_inMemory (i : Fin buckets) :
    t.inMemory.bucket i = .ok (.ofEntry (t.index.get i)) := by
  rw [Memory.bucket, dif_pos i.isLt]
  simp only [inMemory, Vector.getElem_map]
  rfl

theorem setBucket_inMemory (i : Fin buckets) (o : Option (Entry records)) :
    t.inMemory.setBucket i (.ofEntry o) =
      .ok { t with index := overwrite t.index i o }.inMemory := by
  rw [Memory.setBucket, dif_pos i.isLt]
  simp only [inMemory, overwrite, Vector.map_set]

theorem pushFree_inMemory (handle : Fin records) (h : t.free.length < records) :
    t.inMemory.pushFree (handle16 handle) = .ok { t with free := handle :: t.free }.inMemory := by
  have hroom : t.inMemory.free.length < records := by
    rw [inMemory, List.length_map]
    exact h
  rw [Memory.pushFree, if_pos hroom]
  rfl

theorem countDown_inMemory (h : 0 < t.count) :
    t.inMemory.countDown = .ok { t with count := t.count - 1 }.inMemory :=
  if_neg (Nat.ne_of_gt h)

theorem position_of_pos (h : 0 < buckets) (n : Nat) :
    Memory.position buckets n = .ok (n % buckets) :=
  if_neg (Nat.ne_of_gt h)

/-- Where a walk is after `k` steps, what is left of it then, and which position comes next. -/
theorem exists_walk_step {k : Nat} (h : k < buckets) (base : Nat) :
    ∃ i : Fin buckets, (base + k) % buckets = i ∧
      (Ring.walk buckets base).drop k = i :: (Ring.walk buckets base).drop (k + 1) ∧
      Memory.position buckets (i + 1) = .ok ((base + (k + 1)) % buckets) := by
  refine ⟨Ring.shift base ⟨k, h⟩, rfl, Ring.drop_walk h, ?_⟩
  rw [position_of_pos (Nat.zero_lt_of_lt h), Ring.shift, Nat.mod_add_mod, Nat.add_assoc]

end Layout

/-! ## Search for a free bucket -/

section Vacancy

variable (t : Roster buckets records)

/-- The search for a free bucket goes the way of the walk. -/
theorem vacancyFrom_inMemory (id : NodeId) :
    ∀ {steps k : Nat}, k + steps = buckets →
      t.inMemory.vacancyFrom id steps ((id.toNat + k) % buckets) =
        .ok ((((Ring.walk buckets id.toNat).drop k).find? fun i =>
          endsSearch id (t.index.get i)).map fun i => i.val) := by
  intro steps
  induction steps with
  | zero =>
    intro k hk
    rw [List.drop_eq_nil_of_le (by simp [← hk])]
    rfl
  | succ steps ih =>
    intro k hk
    obtain ⟨i, hi, hwalk, hnext⟩ := exists_walk_step (by omega : k < buckets) id.toNat
    rw [Memory.vacancyFrom, hi, bucket_inMemory, ok_bind, hwalk]
    cases he : t.index.get i with
    | none =>
      rw [Bucket.key_ofEntry_none, if_pos (.inl rfl)]
      simp only [List.find?_cons, he, endsSearch_none, Option.map_some]
    | some e =>
      rw [Bucket.key_ofEntry_some]
      split
      · next h =>
        have hkey : e.key = id := h.resolve_left e.key_ne_reserved
        simp only [List.find?_cons, he, endsSearch_some, hkey, beq_self_eq_true, Option.map_some]
      · next h =>
        have hend : (e.key == id) = false := beq_eq_false_iff_ne.mpr (not_or.mp h).2
        rw [hnext, ok_bind, ih (by omega)]
        simp only [List.find?_cons, he, endsSearch_some, hend]

theorem vacancy_inMemory (id : NodeId) :
    t.inMemory.vacancy id = .ok ((t.seat? id).map fun i => i.val) := by
  unfold Memory.vacancy
  split
  · next hsize =>
    subst hsize
    rfl
  · next hsize =>
    have hsearch := t.vacancyFrom_inMemory id (Nat.zero_add buckets)
    rw [Nat.add_zero, List.drop_zero] at hsearch
    rw [position_of_pos (Nat.pos_of_ne_zero hsize), ok_bind, hsearch, seat?]

end Vacancy

/-! ## Closing a gap -/

/-- Whether an entry can stay, in terms of positions and in terms of steps. -/
theorem isBetween_iff (gap i : Fin buckets) (start : Nat) :
    Memory.isBetween gap i (start % buckets) = true ↔
      Ring.stepsFrom start i < Ring.stepsFrom gap i := by
  have hgap := gap.isLt
  have hi := i.isLt
  have hstart := Nat.mod_lt start i.pos
  rw [Ring.stepsFrom_eq, Ring.stepsFrom_eq, Nat.mod_eq_of_lt hgap, Memory.isBetween]
  split_ifs <;> simp only [decide_eq_true_eq] <;> omega

/-- Closing a gap goes the way of the walk. -/
theorem closeFrom_inMemory {base : Nat} :
    ∀ {steps k : Nat}, k + steps = buckets → ∀ (t : Roster buckets records) (gap : Fin buckets),
      Memory.closeFrom steps t.inMemory gap ((base + k) % buckets) = .ok
        { t with index := closeGap t.index gap ((Ring.walk buckets base).drop k) }.inMemory := by
  intro steps
  induction steps with
  | zero =>
    intro k hk t gap
    rw [List.drop_eq_nil_of_le (by simp [← hk])]
    rfl
  | succ steps ih =>
    intro k hk t gap
    obtain ⟨i, hi, hwalk, hnext⟩ := exists_walk_step (by omega : k < buckets) base
    rw [Memory.closeFrom, hi, bucket_inMemory, ok_bind, hwalk, closeGap]
    cases he : t.index.get i with
    | none =>
      rw [Bucket.key_ofEntry_none, if_pos rfl]
    | some e =>
      rw [Bucket.key_ofEntry_some, if_neg e.key_ne_reserved, position_of_pos i.pos, ok_bind]
      simp only [isBetween_iff]
      split
      · rw [hnext, ok_bind, ih (by omega)]
      · rw [setBucket_inMemory, ok_bind]
        have hvacate := setBucket_inMemory
          { t with index := overwrite t.index gap (some e) } i none
        rw [Bucket.ofEntry] at hvacate
        rw [hvacate, ok_bind, hnext, ok_bind, ih (by omega)]

/-! ## Enumeration -/

/-- The buckets in use are those with an entry. -/
theorem filter_map_ofEntry :
    ∀ l : List (Option (Entry records)),
      (l.map Bucket.ofEntry).filter (·.key ≠ NodeId.reserved) =
        (l.filterMap id).map fun e => Bucket.ofEntry (some e)
  | [] => rfl
  | none :: l => filter_map_ofEntry l
  | some e :: l => by
    have huse : (Bucket.ofEntry (some e)).key ≠ NodeId.reserved := e.key_ne_reserved
    have hlist : (some e :: l).filterMap id = e :: l.filterMap id := rfl
    rw [List.map_cons, List.filter_cons, if_pos (decide_eq_true huse), filter_map_ofEntry l, hlist,
      List.map_cons]

theorem toList_index_inMemory (t : Roster buckets records) :
    t.inMemory.index.toList = t.index.toList.map Bucket.ofEntry := by
  rw [inMemory, Vector.toList_map]

theorem ids_inMemory (t : Roster buckets records) : t.inMemory.ids = t.ids := by
  rw [Memory.ids, toList_index_inMemory, filter_map_ofEntry, List.map_map]
  rfl

/-! ## Handles of 16 bits -/

section Handles

variable (t : Roster buckets records) (hrecords : records ≤ 65536)

include hrecords

theorem toNat_handle16 (handle : Fin records) : (handle16 handle).toNat = handle := by
  rw [handle16, UInt16.toNat_ofNat']
  exact Nat.mod_eq_of_lt (Nat.lt_of_lt_of_le handle.isLt hrecords)

theorem toNat_handle16_lt (handle : Fin records) : (handle16 handle).toNat < records := by
  rw [toNat_handle16 hrecords]
  exact handle.isLt

theorem record?_inMemory (handle : Fin records) :
    t.inMemory.record? (handle16 handle) = some (t.arena.get handle) := by
  rw [Memory.record?, toNat_handle16 hrecords]
  exact Vector.getElem?_eq_getElem handle.isLt

theorem setRecord_inMemory (handle : Fin records) (r : Record) :
    t.inMemory.setRecord (handle16 handle) r =
      .ok { t with arena := overwrite t.arena handle r }.inMemory := by
  rw [Memory.setRecord, dif_pos (toNat_handle16_lt hrecords handle)]
  simp only [inMemory, overwrite, toNat_handle16 hrecords]

/-! ## Search -/

/-- The search in memory goes the way of the walk. -/
theorem findFrom_inMemory {id : NodeId} (hid : id ≠ NodeId.reserved) :
    ∀ {steps k : Nat}, k + steps = buckets →
      t.inMemory.findFrom id steps ((id.toNat + k) % buckets) =
        .ok ((((Ring.walk buckets id.toNat).drop k).find? fun i =>
          endsSearch id (t.index.get i)).bind fun i => (t.index.get i).bind fun e =>
            if (t.arena.get e.handle).id = id then some i.val else none) := by
  intro steps
  induction steps with
  | zero =>
    intro k hk
    rw [List.drop_eq_nil_of_le (by simp [← hk])]
    rfl
  | succ steps ih =>
    intro k hk
    obtain ⟨i, hi, hwalk, hnext⟩ := exists_walk_step (by omega : k < buckets) id.toNat
    rw [Memory.findFrom, hi, bucket_inMemory, ok_bind, hwalk]
    cases he : t.index.get i with
    | none =>
      rw [Bucket.key_ofEntry_none, if_neg (Ne.symm hid), if_pos rfl]
      simp only [List.find?_cons, he, endsSearch_none, Option.bind_some, Option.bind_none]
    | some e =>
      rw [Bucket.key_ofEntry_some, Bucket.handle_ofEntry_some, t.record?_inMemory hrecords]
      split
      · next hkey =>
        simp only [List.find?_cons, he, endsSearch_some, hkey, beq_self_eq_true, Option.bind_some,
          Option.map_some, Option.some_inj]
      · next hkey =>
        have hend : (e.key == id) = false := beq_eq_false_iff_ne.mpr hkey
        rw [if_neg e.key_ne_reserved, hnext, ok_bind, ih (by omega)]
        simp only [List.find?_cons, he, endsSearch_some, hend]

/-- The bucket of a peer is found where the roster finds it. -/
theorem find_inMemory (id : NodeId) :
    t.inMemory.find id = .ok ((t.find? id).map fun found => found.1.val) := by
  unfold Memory.find
  split
  · next h =>
    have hnone : t.find? id = none := by
      rcases h with hid | hsize
      · rw [hid, find?_reserved]
      · subst hsize
        rfl
    rw [hnone]
    rfl
  · next h =>
    obtain ⟨hid, hsize⟩ := not_or.mp h
    have hsearch := t.findFrom_inMemory hrecords hid (Nat.zero_add buckets)
    rw [Nat.add_zero, List.drop_zero] at hsearch
    rw [position_of_pos (Nat.pos_of_ne_zero hsize), ok_bind, hsearch, find?, seat?]
    simp only [Option.bind_eq_bind, Option.map_bind, Function.comp_def,
      apply_ite (Option.map _), Option.map_some, Option.map_none]

theorem seek_inMemory (id : NodeId) :
    t.inMemory.seek id = .ok ((t.find? id).map fun found => handle16 found.2) := by
  rw [Memory.seek, t.find_inMemory hrecords, ok_bind]
  cases hfind : t.find? id with
  | none => rfl
  | some found =>
    obtain ⟨e, he, _, hhandle⟩ := key_of_find? hfind
    simp only [Option.map_some]
    rw [bucket_inMemory, ok_bind, he, Bucket.handle_ofEntry_some, hhandle,
      if_pos (toNat_handle16_lt hrecords found.2)]

/-! ## Letting a peer in -/

theorem insert_inMemory (h : t.Coherent) (id : NodeId) :
    t.inMemory.insert id = .ok ((t.insert id).state.inMemory,
      ((t.insert id).state.find? id).map fun found => handle16 found.2) := by
  rcases t.insert_cases id with ⟨hid, heq⟩ | ⟨hid, i, handle, hfind, heq⟩ |
    ⟨hid, i, handle, free, hfind, hseat, hfree, heq⟩ | ⟨hid, hfind, hfull, heq⟩
  · rw [heq, Memory.insert, if_pos hid, hid, find?_reserved]
    rfl
  · obtain ⟨e, he, hkey, hhandle⟩ := key_of_find? hfind
    have hstill : Coherent { t with arena := overwrite t.arena handle (.fresh id) } :=
      h.of_eq rfl rfl rfl
    have hagain : Roster.find? { t with arena := overwrite t.arena handle (.fresh id) } id =
        some (i, handle) := by
      refine hstill.find?_eq_some_iff.mpr ⟨e, he, hkey, hhandle, ?_⟩
      rw [get_overwrite, if_pos rfl]
      rfl
    rw [heq, Memory.insert, if_neg hid, t.find_inMemory hrecords, ok_bind, hfind, hagain]
    simp only [Option.map_some]
    rw [bucket_inMemory, ok_bind, he, Bucket.handle_ofEntry_some, hhandle,
      if_pos (toNat_handle16_lt hrecords handle), t.setRecord_inMemory hrecords, ok_bind]
  · have hagain : (t.claim id hid i handle free).find? id = some (i, handle) := by
      refine (h.claim hid hseat hfree).find?_eq_some_iff.mpr ⟨⟨id, handle, hid⟩, ?_, rfl, rfl, ?_⟩
      · rw [claim, get_overwrite, if_pos rfl]
      · rw [claim, get_overwrite, if_pos rfl]
        rfl
    have hplaces : t.inMemory.free = handle16 handle :: free.map handle16 := by
      rw [inMemory, hfree, List.map_cons]
    have hbucket : Memory.setBucket { t.inMemory with free := free.map handle16 } i
        { key := id, handle := handle16 handle } = _ :=
      setBucket_inMemory { t with free } i (some ⟨id, handle, hid⟩)
    have hrecord := setRecord_inMemory
      { t with
        index := overwrite t.index i (some ⟨id, handle, hid⟩)
        free
        count := t.count + 1 } hrecords handle (.fresh id)
    rw [heq, Memory.insert, if_neg hid, t.find_inMemory hrecords, ok_bind, hfind, hagain]
    simp only [Option.map_none, Option.map_some]
    rw [t.vacancy_inMemory, ok_bind, hseat, hplaces]
    simp only [Option.map_some]
    rw [hbucket, ok_bind]
    exact congrArg (· >>= fun m => Except.ok (m, some (handle16 handle))) hrecord
  · have hagain : Roster.find? { t with refusals := t.refusals + 1 } id = none := hfind
    rw [heq, Memory.insert, if_neg hid, t.find_inMemory hrecords, ok_bind, hfind, hagain]
    simp only [Option.map_none]
    rw [t.vacancy_inMemory, ok_bind]
    split
    · next hsome hcons =>
      rcases hfull with hseat | hfree
      · rw [hseat, Option.map_none] at hsome
        cases hsome
      · rw [inMemory, hfree, List.map_nil] at hcons
        cases hcons
    · rfl

/-! ## Giving a peer up -/

theorem erase_inMemory (h : t.Coherent) (id : NodeId) :
    t.inMemory.erase id = .ok ((t.erase id).inMemory, (t.erase? id).isSome) := by
  rw [Memory.erase, t.find_inMemory hrecords, ok_bind]
  rcases t.erase_cases id with ⟨hfind, heq⟩ | ⟨gap, handle, hfind, heq⟩
  · rw [heq, isSome_erase?, contains, hfind]
    rfl
  · obtain ⟨e, he, _, hhandle⟩ : ∃ e, t.index.get gap = some e ∧ e.key = id ∧ e.handle = handle :=
      key_of_find? hfind
    have hentries : 0 < t.entries.length := List.length_pos_of_mem (mem_inUse.mpr ⟨gap, he⟩)
    have hpos : 0 < t.count := Nat.lt_of_lt_of_le hentries h.length_entries_le_count
    have hroom : t.free.length < records := by
      have := h.count_add_free
      omega
    have hempty := t.setRecord_inMemory hrecords handle .vacant
    have hpush :=
      pushFree_inMemory { t with arena := overwrite t.arena handle .vacant } handle hroom
    have hvacate : Memory.setBucket _ gap .vacant = _ := setBucket_inMemory
      { t with arena := overwrite t.arena handle .vacant, free := handle :: t.free } gap none
    have hdown := countDown_inMemory
      { t with
        index := overwrite t.index gap none
        arena := overwrite t.arena handle .vacant
        free := handle :: t.free } hpos
    simp only [hfind, Option.map_some]
    rw [bucket_inMemory, ok_bind, he, Bucket.handle_ofEntry_some, hhandle, hempty, ok_bind, hpush,
      ok_bind, hvacate, ok_bind, hdown, ok_bind, position_of_pos gap.pos, ok_bind,
      closeFrom_inMemory (Nat.add_sub_cancel' gap.pos), ok_bind, List.drop_one, heq,
      isSome_erase?, contains, hfind]
    rfl

/-! ## Editing records -/

/-- Editing the record of a peer through its handle. -/
theorem through_inMemory (id : NodeId) (f : Record → Record) :
    t.inMemory.through ((t.find? id).map fun found => handle16 found.2) f =
      .ok ((t.modify id f).inMemory, t.get? id) := by
  unfold modify get?
  cases t.find? id with
  | none => rfl
  | some found =>
    simp only [Option.map_some, Memory.through, t.record?_inMemory hrecords]
    rw [t.setRecord_inMemory hrecords]
    rfl

theorem editAlong_map (f : Nat → Record → Record) :
    ∀ (l : List (Option (Entry records))) (k : Nat) (arena : Vector Record records),
      Memory.editAlong f (l.map Bucket.ofEntry) k arena =
        ((l.filterMap id).zipIdx k).foldl
          (fun arena (e, i) => overwrite arena e.handle (f i (arena.get e.handle))) arena
  | [], _, _ => rfl
  | none :: l, k, arena => editAlong_map f l k arena
  | some e :: l, k, arena => by
    have ih := editAlong_map f l (k + 1) (overwrite arena e.handle (f k (arena.get e.handle)))
    rw [List.map_cons, Memory.editAlong, Bucket.key_ofEntry_some, if_neg e.key_ne_reserved,
      Bucket.handle_ofEntry_some, dif_pos (toNat_handle16_lt hrecords e.handle)]
    simp only [toNat_handle16 hrecords]
    exact ih

theorem editAll_inMemory (f : Nat → Record → Record) :
    t.inMemory.editAll f = (t.mapIdx f).inMemory := by
  rw [Memory.editAll, toList_index_inMemory, editAlong_map hrecords]
  rfl

end Handles

end Roster

end PeerBeacon
