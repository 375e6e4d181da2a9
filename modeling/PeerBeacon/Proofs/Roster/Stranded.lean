import PeerBeacon.Proofs.Roster.Membership
import PeerBeacon.Proofs.Roster.Safety

/-!
# Places that nobody leads to

A bucket whose record was made to carry another id is found by no search, but it ends the search for
its key.  A request for that key takes the bucket over: it comes to lead to a place that was free,
and the place that it led to is *stranded*.  It was not given back, and nothing leads to it any
more.  The count of places claimed goes up and the list of ids does not.

The hope that the books stay square all the same (`Roster.Balanced`) fails at the first bucket that
is taken over, and with it the bound on the count: a roster of one bucket can come to count two
peers (`Roster.not_balanced_of_reclaim`).  What holds is that nothing else goes wrong.  After any
operations there are as many stranded places, and the count is ahead of the ids by as many, as
buckets were taken over (`Roster.accessAll_stranded`), so that the books are square if and only if
that never happened.
-/

namespace PeerBeacon

namespace Roster

variable {buckets records : Nat}

/-! ## Stranded places -/

/-- The places of the arena that are not free and that no bucket leads to. -/
def stranded (t : Roster buckets records) : List (Fin records) :=
  (List.finRange records).filter fun place => place ∉ t.entries.map Entry.handle ++ t.free

/-- The books of a roster are square: it counts the ids that it lists and no more than it has room
for, and every place is free or led to. -/
structure Balanced (t : Roster buckets records) : Prop where
  count_eq : t.count = t.ids.length
  count_le : t.count ≤ t.capacity
  free_or_led_to : ∀ place, place ∈ t.free ∨ ∃ e ∈ t.entries, e.handle = place

theorem mem_stranded {t : Roster buckets records} {place : Fin records} :
    place ∈ t.stranded ↔ ¬(place ∈ t.free ∨ ∃ e ∈ t.entries, e.handle = place) := by
  unfold stranded
  rw [List.mem_filter, decide_eq_true_iff, List.mem_append, List.mem_map, or_comm]
  exact and_iff_right (List.mem_finRange place)

/-- Numbers below a bound that do not occur in a list without repetitions. -/
theorem length_filter_notMem {n : Nat} {l : List (Fin n)} (h : l.Nodup) :
    ((List.finRange n).filter fun k => k ∉ l).length + l.length = n := by
  have hperm : ((List.finRange n).filter fun k => k ∈ l).Perm l := by
    refine (List.perm_ext_iff_of_nodup ((List.nodup_finRange n).filter _) h).mpr fun k => ?_
    simp
  have hsplit := List.length_eq_length_filter_add (l := List.finRange n) fun k => decide (k ∈ l)
  rw [hperm.length_eq, List.length_finRange] at hsplit
  simp only [decide_not]
  omega

theorem length_ids_eq (t : Roster buckets records) : t.ids.length = (inUse t.index).length := by
  unfold ids
  rw [List.length_map, entries_eq_inUse]

namespace Coherent

variable {t : Roster buckets records}

/-- The count is ahead of the ids by the stranded places. -/
theorem length_ids_add_stranded (h : t.Coherent) : t.ids.length + t.stranded.length = t.count := by
  have hplaces := length_filter_notMem h.nodup_handles
  have hcount := h.count_add_free
  rw [List.length_append, List.length_map, entries_eq_inUse, ← length_ids_eq] at hplaces
  unfold stranded
  rw [entries_eq_inUse]
  omega

theorem length_ids_le_capacity (h : t.Coherent) : t.ids.length ≤ t.capacity := by
  have hbuckets := length_inUse_le t.index
  have hcount := h.length_ids_add_stranded
  have hrecords := h.count_add_free
  rw [← length_ids_eq] at hbuckets
  unfold capacity
  omega

/-- The books are square if and only if no place is stranded. -/
theorem balanced_iff (h : t.Coherent) : t.Balanced ↔ t.stranded.length = 0 := by
  have hcount := h.length_ids_add_stranded
  constructor
  · intro hbalanced
    have := hbalanced.count_eq
    omega
  · intro hnone
    have hle := h.length_ids_le_capacity
    refine ⟨by omega, by omega, fun place => Decidable.byContradiction fun hlost => ?_⟩
    exact List.ne_nil_of_mem (mem_stranded.mpr hlost) (List.length_eq_zero_iff.mp hnone)

end Coherent

/-- As long as edits keep the ids, the books are square. -/
theorem Faithful.balanced {t : Roster buckets records} (h : t.Faithful) : t.Balanced := by
  have hcount := h.toCoherent.length_ids_add_stranded
  have hids := h.length_ids
  exact h.toCoherent.balanced_iff.mpr (by omega)

/-! ## Buckets that are taken over -/

/-- An operation takes over a bucket: it asks for a peer whose id is listed although the peer is not
known, and there is a free place. -/
def reclaims (t : Roster buckets records) : Access → Bool
  | .insert id _ => id ∈ t.ids && !t.contains id && !t.free.isEmpty
  | _ => false

/-- The number of buckets that operations take over. -/
def reclaimed (t : Roster buckets records) : List Access → Nat
  | [] => 0
  | a :: as => (t.reclaims a).toNat + reclaimed (t.access a).1 as

theorem reclaims_insert_iff {t : Roster buckets records} {id : NodeId} {f : Record → Record} :
    t.reclaims (.insert id f) = true ↔ id ∈ t.ids ∧ t.find? id = none ∧ t.free ≠ [] := by
  unfold reclaims contains
  simp [and_assoc]

theorem ids_modify (t : Roster buckets records) (id : NodeId) (f : Record → Record) :
    (t.modify id f).ids = t.ids := by
  unfold ids entries
  rw [index_modify]

namespace Coherent

variable {t : Roster buckets records} {id : NodeId}

/-- Claiming an empty bucket lists one more id, and claiming a bucket with the id lists no other. -/
theorem length_ids_claim (h : t.Coherent) (hid : id ≠ NodeId.reserved) {i : Fin buckets}
    (hseat : t.seat? id = some i) (handle : Fin records) (free : List (Fin records)) :
    (t.claim id hid i handle free).ids.length = t.ids.length + if id ∈ t.ids then 0 else 1 := by
  have hperm := (perm_inUse_set t.index i (some (⟨id, handle, hid⟩ : Entry records))).length_eq
  have hlength : (t.claim id hid i handle free).ids.length =
      (inUse (overwrite t.index i (some ⟨id, handle, hid⟩))).length := length_ids_eq _
  rw [hlength, length_ids_eq]
  rcases h.index_seat?_cases hseat with ⟨hi, hnew⟩ | ⟨d, hi, hkey⟩
  · rw [hi] at hperm
    rw [if_neg hnew]
    simpa [Nat.add_comm] using hperm
  · have hold : id ∈ t.ids := List.mem_map.mpr ⟨d, mem_inUse.mpr ⟨i, hi⟩, hkey⟩
    rw [hi] at hperm
    rw [if_pos hold]
    simpa [Nat.add_comm] using hperm

/-- Letting a peer in strands a place if and only if a bucket is taken over. -/
theorem count_insert (h : t.Coherent) (id : NodeId) (f : Record → Record) :
    (t.insert id).state.count + t.ids.length =
      t.count + (t.insert id).state.ids.length + (t.reclaims (.insert id f)).toNat := by
  have hno : ∀ {u : Roster buckets records}, u.count = t.count → u.ids = t.ids →
      ¬(id ∈ t.ids ∧ t.find? id = none ∧ t.free ≠ []) →
        u.count + t.ids.length =
          t.count + u.ids.length + (t.reclaims (.insert id f)).toNat := by
    intro u hcount hids hnot
    rw [← reclaims_insert_iff (f := f), Bool.not_eq_true] at hnot
    rw [hcount, hids, hnot, Bool.toNat_false, Nat.add_zero]
  rcases t.insert_cases id with ⟨hid, heq⟩ | ⟨_, i, handle, hfind, heq⟩ |
    ⟨hid, i, handle, free, hfind, hseat, hfree, heq⟩ | ⟨_, _, hfull, heq⟩
  · rw [heq]
    refine hno rfl rfl fun hreclaims => ?_
    exact Faithful.reserved_notMem_ids t (hid ▸ hreclaims.1)
  · rw [heq]
    refine hno rfl rfl fun hreclaims => ?_
    rw [hreclaims.2.1] at hfind
    cases hfind
  · have hids := h.length_ids_claim hid hseat handle free
    have hcount : (t.claim id hid i handle free).count = t.count + 1 := rfl
    have hroom : t.free ≠ [] := hfree ▸ List.cons_ne_nil handle free
    rw [heq, hcount, hids]
    split
    · next hold =>
      rw [reclaims_insert_iff.mpr ⟨hold, hfind, hroom⟩, Bool.toNat_true]
      omega
    · next hnew =>
      have hnot : t.reclaims (.insert id f) = false := by
        rw [← Bool.not_eq_true, reclaims_insert_iff]
        exact fun hreclaims => hnew hreclaims.1
      rw [hnot, Bool.toNat_false]
      omega
  · rw [heq]
    refine hno rfl rfl fun hreclaims => ?_
    rcases hfull with hseat | hfree
    · obtain ⟨e, he, rfl⟩ := List.mem_map.mp hreclaims.1
      obtain ⟨i, hi⟩ := mem_inUse.mp he
      rw [h.seat?_key hi] at hseat
      cases hseat
    · exact hreclaims.2.2 hfree

/-- Giving a peer up takes one id off the list and one off the count. -/
theorem count_erase (h : t.Coherent) (id : NodeId) :
    (t.erase id).count + t.ids.length = t.count + (t.erase id).ids.length := by
  rcases t.erase_cases id with ⟨_, heq⟩ | ⟨i, handle, hfind, heq⟩
  · rw [heq]
  · obtain ⟨e, he, _, rfl, _⟩ := h.find?_eq_some_iff.mp hfind
    have hlength := (perm_entries_release he e.handle).length_eq
    have hle := h.length_entries_le_count
    have hcount : (t.release i e.handle).count = t.count - 1 := rfl
    rw [List.length_cons, entries_eq_inUse, entries_eq_inUse, ← length_ids_eq,
      ← length_ids_eq] at hlength
    rw [entries_eq_inUse, ← length_ids_eq] at hle
    rw [heq, hcount]
    omega

/-- An operation strands a place if it takes over a bucket, and no place otherwise. -/
theorem length_stranded_access (h : t.Coherent) (a : Access) :
    (t.access a).1.stranded.length = t.stranded.length + (t.reclaims a).toNat := by
  have hbefore := h.length_ids_add_stranded
  have hafter := (h.access a).length_ids_add_stranded
  cases a with
  | insert id f =>
    have hcount := h.count_insert id f
    simp only [Roster.access, ids_modify, count_modify] at hafter ⊢
    omega
  | erase id =>
    have hcount := h.count_erase id
    simp only [Roster.access, reclaims, Bool.toNat_false] at hafter ⊢
    omega
  | edit id f =>
    simp only [Roster.access, ids_modify, count_modify, reclaims, Bool.toNat_false] at hafter ⊢
    omega
  | look id => rfl
  | contains id => rfl
  | ids => rfl
  | editAll f => rfl

/-- Operations strand as many places as they take over buckets. -/
theorem length_stranded_accessAll (accesses : List Access) :
    ∀ {t : Roster buckets records}, t.Coherent →
      (t.accessAll accesses).1.stranded.length =
        t.stranded.length + t.reclaimed accesses := by
  induction accesses with
  | nil =>
    intro t _
    rfl
  | cons a accesses ih =>
    intro t h
    have hrest := ih (h.access a)
    rw [h.length_stranded_access] at hrest
    rw [reclaimed, ← Nat.add_assoc]
    exact hrest

end Coherent

/-- **What taken-over buckets cost.**  After any operations on an empty roster, whatever the records
are overwritten with, the count of a roster is ahead of the ids that it lists by the number of
buckets that were taken over, and as many places are stranded.  The books are square if and only if
no bucket was taken over, and the ids never outgrow the room. -/
theorem accessAll_stranded (accesses : List Access) :
    ((empty buckets records).accessAll accesses).1.count =
        ((empty buckets records).accessAll accesses).1.ids.length +
          (empty buckets records).reclaimed accesses ∧
      ((empty buckets records).accessAll accesses).1.stranded.length =
        (empty buckets records).reclaimed accesses ∧
      (((empty buckets records).accessAll accesses).1.Balanced ↔
        (empty buckets records).reclaimed accesses = 0) ∧
      ((empty buckets records).accessAll accesses).1.ids.length ≤ min buckets records ∧
      ((empty buckets records).accessAll accesses).1.count ≤ records := by
  have hempty := Coherent.empty buckets records
  have hcoherent := hempty.accessAll accesses
  have hnone : (empty buckets records).stranded.length = 0 :=
    hempty.balanced_iff.mp (Faithful.empty buckets records).balanced
  have hstranded := Coherent.length_stranded_accessAll accesses hempty
  rw [hnone, Nat.zero_add] at hstranded
  have hcount := hcoherent.length_ids_add_stranded
  have hrecords := hcoherent.count_add_free
  refine ⟨by omega, hstranded, ?_, hcoherent.length_ids_le_capacity, by omega⟩
  rw [hcoherent.balanced_iff, hstranded]

/-- A peer is let in, its record is made to carry another id, and the peer is let in again. -/
def renamedInBetween : List Access :=
  [.insert 5 fun r => r, .edit 5 fun r => { r with id := 9 }, .insert 5 fun r => r]

/-- A roster of one bucket counts two peers and lists one, and its first place is neither free nor
led to. -/
theorem not_balanced_of_reclaim :
    ((empty 1 4).accessAll renamedInBetween).1.ids = [5] ∧
      ((empty 1 4).accessAll renamedInBetween).1.count = 2 ∧
      ((empty 1 4).accessAll renamedInBetween).1.capacity = 1 ∧
      ((empty 1 4).accessAll renamedInBetween).1.stranded = [0] ∧
      ¬((empty 1 4).accessAll renamedInBetween).1.Balanced := by
  have hcount : ((empty 1 4).accessAll renamedInBetween).1.count = 2 := by decide
  have hcapacity : ((empty 1 4).accessAll renamedInBetween).1.capacity = 1 := by decide
  refine ⟨by decide, hcount, hcapacity, by decide, fun hbalanced => ?_⟩
  have hle := hbalanced.count_le
  omega

end Roster

end PeerBeacon
