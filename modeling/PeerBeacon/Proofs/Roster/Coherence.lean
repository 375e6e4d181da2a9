import PeerBeacon.Proofs.Roster.Search

/-!
# Operations keep a roster coherent

Letting a peer in claims a bucket and a place of the arena (`Roster.claim`), and giving one up
releases them (`Roster.release`).  `Roster.insert_cases` and `Roster.erase_cases` say once what the
two operations can do; that a roster stays coherent follows case by case, for every edit of the
records in between.
-/

namespace PeerBeacon

namespace Roster

variable {buckets records : Nat}

/-! ## What the operations can do -/

/-- Claims bucket `i` and place `handle` for `id`. -/
def claim (t : Roster buckets records) (id : NodeId) (h : id ≠ NodeId.reserved) (i : Fin buckets)
    (handle : Fin records) (free : List (Fin records)) : Roster buckets records :=
  { t with
    index := overwrite t.index i (some ⟨id, handle, h⟩)
    arena := overwrite t.arena handle (.fresh id)
    free := free
    count := t.count + 1 }

/-- Releases bucket `i` and place `handle`. -/
def release (t : Roster buckets records) (i : Fin buckets) (handle : Fin records) :
    Roster buckets records :=
  { t with
    index := closeGap (overwrite t.index i none) i (Ring.walk buckets i).tail
    arena := overwrite t.arena handle .vacant
    free := handle :: t.free
    count := t.count - 1 }

/-- A request for a place ends in one of four ways: the id is reserved, the peer is known already,
a place is claimed, or there is no room. -/
theorem insert_cases (t : Roster buckets records) (id : NodeId) :
    (id = NodeId.reserved ∧ t.insert id = { state := t, answer := false }) ∨
    (id ≠ NodeId.reserved ∧ ∃ i handle, t.find? id = some (i, handle) ∧
      t.insert id =
        { state := { t with arena := overwrite t.arena handle (.fresh id) }
          answer := true }) ∨
    (∃ h : id ≠ NodeId.reserved, ∃ i handle free, t.find? id = none ∧ t.seat? id = some i ∧
      t.free = handle :: free ∧
      t.insert id = { state := t.claim id h i handle free, answer := true }) ∨
    (id ≠ NodeId.reserved ∧ t.find? id = none ∧ (t.seat? id = none ∨ t.free = []) ∧
      t.insert id =
        { state := { t with refusals := t.refusals + 1 }
          answer := false
          notices := [.rosterFull t.count id] }) := by
  by_cases hid : id = NodeId.reserved
  · subst hid
    exact .inl ⟨rfl, insert_reserved t⟩
  · refine .inr ?_
    cases hfind : t.find? id with
    | some found =>
      exact .inl ⟨hid, found.1, found.2, rfl, by simp [insert, hid, hfind]⟩
    | none =>
      refine .inr ?_
      cases hseat : t.seat? id with
      | none => exact .inr ⟨hid, rfl, .inl rfl, by simp [insert, hid, hfind, hseat]⟩
      | some i =>
        cases hfree : t.free with
        | nil => exact .inr ⟨hid, rfl, .inr rfl, by simp [insert, hid, hfind, hseat, hfree]⟩
        | cons handle free =>
          exact .inl ⟨hid, i, handle, free, rfl, rfl, rfl,
            by simp [insert, claim, hid, hfind, hseat, hfree]⟩

/-- Giving up a peer releases its places, and giving up an unknown one does nothing. -/
theorem erase_cases (t : Roster buckets records) (id : NodeId) :
    (t.find? id = none ∧ t.erase id = t) ∨
    (∃ i handle, t.find? id = some (i, handle) ∧ t.erase id = t.release i handle) := by
  cases hfind : t.find? id with
  | none => exact .inl ⟨rfl, by simp [erase, erase?, hfind]⟩
  | some found => exact .inr ⟨found.1, found.2, rfl, by simp [erase, erase?, release, hfind]⟩

/-! ## Editing records -/

@[simp] theorem index_modify (t : Roster buckets records) (id : NodeId) (f : Record → Record) :
    (t.modify id f).index = t.index := by
  unfold modify
  split <;> rfl

@[simp] theorem free_modify (t : Roster buckets records) (id : NodeId) (f : Record → Record) :
    (t.modify id f).free = t.free := by
  unfold modify
  split <;> rfl

@[simp] theorem count_modify (t : Roster buckets records) (id : NodeId) (f : Record → Record) :
    (t.modify id f).count = t.count := by
  unfold modify
  split <;> rfl

@[simp] theorem refusals_modify (t : Roster buckets records) (id : NodeId) (f : Record → Record) :
    (t.modify id f).refusals = t.refusals := by
  unfold modify
  split <;> rfl

namespace Coherent

variable {t : Roster buckets records} {id : NodeId}

theorem modify (h : t.Coherent) (id : NodeId) (f : Record → Record) : (t.modify id f).Coherent :=
  h.of_eq (index_modify t id f) (free_modify t id f) (count_modify t id f)

theorem mapIdx (h : t.Coherent) (f : Nat → Record → Record) : (t.mapIdx f).Coherent :=
  h.of_eq rfl rfl rfl

/-! ## An empty roster -/

theorem empty (buckets records : Nat) : (Roster.empty buckets records).Coherent := by
  have hindex : ∀ i : Fin buckets, (Roster.empty buckets records).index.get i = none :=
    fun i => Vector.getElem_replicate i.isLt
  have hentries : (Roster.empty buckets records).entries = [] := by
    refine List.eq_nil_iff_forall_not_mem.mpr fun e he => ?_
    obtain ⟨i, hi⟩ := mem_inUse.mp he
    rw [hindex i] at hi
    cases hi
  refine ⟨?_, ?_, ?_, ?_, ?_⟩
  · intro i e he
    rw [hindex i] at he
    cases he
  · intro i
    refine ⟨i, fun j e he => ?_⟩
    rw [hindex j] at he
    cases he
  · rw [ids, hentries]
    exact List.nodup_nil
  · rw [hentries]
    exact List.nodup_finRange records
  · simp [Roster.empty]

/-! ## Claiming places -/

/-- Filling the bucket where the search for the new key ends keeps the index searchable. -/
theorem chained_claim (h : t.Coherent) {i : Fin buckets} (hseat : t.seat? id = some i)
    {e : Entry records} (hkey : e.key = id) : Chained (overwrite t.index i (some e)) := by
  have hfree := (seat?_eq_some_iff.mp hseat).2
  have hused : ∀ j : Fin buckets, t.index.get j ≠ none →
      (overwrite t.index i (some e)).get j ≠ none := by
    intro j hj
    rw [get_overwrite]
    split
    · exact Option.some_ne_none e
    · exact hj
  intro k d hd j hj
  rw [get_overwrite] at hd
  split at hd
  · next hki =>
    cases hd
    subst hki
    rw [hkey] at hj
    refine hused j fun hnone => ?_
    have := hfree j hj
    rw [hnone] at this
    cases this
  · exact hused j (h.chained k d hd j hj)

/-- After a bucket has been filled there is a cut: that bucket if it was empty, and otherwise the
cut that there was. -/
theorem exists_cut_claim (h : t.Coherent) {i : Fin buckets} (hseat : t.seat? id = some i)
    {e : Entry records} (hkey : e.key = id) : ∃ p, Cut (overwrite t.index i (some e)) p := by
  cases hi : t.index.get i with
  | none =>
    refine ⟨i, fun k d hd hki => ?_⟩
    rw [get_overwrite, if_neg hki] at hd
    exact h.chained.cut_of_none hi k d hd hki
  | some d =>
    have hend := (seat?_eq_some_iff.mp hseat).1
    rw [hi, endsSearch_some, beq_iff_eq] at hend
    obtain ⟨p, hp⟩ := h.exists_cut i
    refine ⟨p, fun k c hc hkp => ?_⟩
    rw [get_overwrite] at hc
    split at hc
    · next hki =>
      cases hc
      subst hki
      rw [hkey, ← hend]
      exact hp k d hi hkp
    · exact hp k c hc hkp

/-- A claimed bucket was empty, and its key was not in the index, or it held the key. -/
theorem index_seat?_cases {i : Fin buckets} (h : t.Coherent) (hseat : t.seat? id = some i) :
    (t.index.get i = none ∧ id ∉ t.ids) ∨ ∃ d, t.index.get i = some d ∧ d.key = id := by
  have hend := (seat?_eq_some_iff.mp hseat).1
  cases hi : t.index.get i with
  | some d =>
    rw [hi, endsSearch_some, beq_iff_eq] at hend
    exact .inr ⟨d, rfl, hend⟩
  | none =>
    refine .inl ⟨rfl, fun hmem => ?_⟩
    obtain ⟨e, he, rfl⟩ := List.mem_map.mp hmem
    obtain ⟨k, hk⟩ := mem_inUse.mp he
    have hki := h.seat?_key hk
    rw [hseat, Option.some_inj] at hki
    subst hki
    rw [hi] at hk
    cases hk

theorem claim (h : t.Coherent) (hid : id ≠ NodeId.reserved) {i : Fin buckets}
    (hseat : t.seat? id = some i) {handle : Fin records} {free : List (Fin records)}
    (hfree : t.free = handle :: free) : (t.claim id hid i handle free).Coherent := by
  have hperm := perm_inUse_set t.index i (some (⟨id, handle, hid⟩ : Entry records))
  have hnodup := h.nodup_handles
  rw [hfree] at hnodup
  have hmove : ((handle :: t.entries.map Entry.handle) ++ free).Perm
      (t.entries.map Entry.handle ++ handle :: free) := List.perm_middle.symm
  have hcount := h.count_add_free
  rw [hfree, List.length_cons] at hcount
  refine ⟨h.chained_claim hseat rfl, fun _ => h.exists_cut_claim hseat rfl, ?_, ?_, ?_⟩
  · rcases h.index_seat?_cases hseat with ⟨hi, hnew⟩ | ⟨d, hi, hkey⟩
    · rw [hi] at hperm
      have hids := hperm.map Entry.key
      exact (hids.nodup_iff.mpr (List.nodup_cons.mpr ⟨hnew, h.nodup_ids⟩) :)
    · rw [hi] at hperm
      have hids := hperm.map Entry.key
      simp only [Option.toList_some, List.singleton_append, List.map_cons, hkey] at hids
      exact hids.cons_inv.nodup_iff.mpr h.nodup_ids
  · rcases h.index_seat?_cases hseat with ⟨hi, _⟩ | ⟨d, hi, _⟩
    · rw [hi] at hperm
      have hhandles := (hperm.map Entry.handle).append_right free
      exact (hhandles.trans hmove).nodup_iff.mpr hnodup
    · rw [hi] at hperm
      have hhandles := (hperm.map Entry.handle).append_right free
      exact ((hhandles.trans hmove).nodup_iff.mpr hnodup).of_cons
  · simp only [Roster.claim]
    omega

theorem insert (h : t.Coherent) (id : NodeId) : (t.insert id).state.Coherent := by
  rcases t.insert_cases id with ⟨_, heq⟩ | ⟨_, i, handle, _, heq⟩ |
    ⟨hid, i, handle, free, _, hseat, hfree, heq⟩ | ⟨_, _, _, heq⟩
  · rw [heq]
    exact h
  · rw [heq]
    exact h.of_eq rfl rfl rfl
  · rw [heq]
    exact h.claim hid hseat hfree
  · rw [heq]
    exact h.of_eq rfl rfl rfl

/-! ## Releasing places -/

/-- A scan can begin where an entry has just been taken out. -/
theorem scan_start (h : t.Coherent) (i : Fin buckets) {p : Fin buckets} (hp : Cut t.index p) :
    Scan i p 1 (overwrite t.index i none) i := by
  have hold : ∀ (k : Fin buckets) (d : Entry records), (overwrite t.index i none).get k = some d →
      t.index.get k = some d := by
    intro k d hd
    rw [get_overwrite] at hd
    split at hd
    · cases hd
    · exact hd
  refine ⟨?_, ?_, ?_, ?_, ?_, ?_⟩
  · rw [get_overwrite, if_pos rfl]
  · rw [Ring.stepsFrom_self]
    exact Nat.one_pos
  · intro k d hd j hj
    by_cases hji : j = i
    · exact .inr hji
    · rw [get_overwrite, if_neg hji]
      exact .inl (h.chained k d (hold k d hd) j hj)
  · intro k d _ hgt hlt
    omega
  · exact fun k d hd => hp k d (hold k d hd)
  · rw [Ring.stepsFrom_self]
    exact Nat.zero_le _

/-- Taking an entry out removes exactly that entry from the list. -/
theorem perm_entries_release {i : Fin buckets} {e : Entry records} (he : t.index.get i = some e)
    (handle : Fin records) : (e :: (t.release i handle).entries).Perm t.entries := by
  have hset := perm_inUse_set t.index i none
  rw [he] at hset
  have hnodup : (i :: (Ring.walk buckets i).tail).Nodup := by
    rw [← walk_eq_cons]
    exact nodup_walk _
  have hnone : (overwrite t.index i none).get i = none := by rw [get_overwrite, if_pos rfl]
  have hclose := perm_inUse_closeGap _ (overwrite t.index i none) i hnone hnodup
  exact (hclose.cons e).trans hset

theorem release (h : t.Coherent) {i : Fin buckets} {e : Entry records}
    (he : t.index.get i = some e) : (t.release i e.handle).Coherent := by
  have hperm := perm_entries_release he e.handle
  obtain ⟨p, hp⟩ := h.exists_cut i
  have hchained : Chained (t.release i e.handle).index := by
    have := (h.scan_start i hp).chained_closeGap
    rwa [List.drop_one] at this
  have hmem : e ∈ t.entries := mem_inUse.mpr ⟨i, he⟩
  have hlen := List.length_pos_of_mem hmem
  have hle := h.length_entries_le_count
  have hcount := h.count_add_free
  refine ⟨hchained, fun _ => ?_, ?_, ?_, ?_⟩
  · have hlt : (t.release i e.handle).entries.length < buckets := by
      have heq := hperm.length_eq
      have hbound := length_inUse_le t.index
      rw [List.length_cons, t.entries_eq_inUse] at heq
      omega
    obtain ⟨q, hq⟩ := (length_inUse_lt_iff _).mp hlt
    exact ⟨q, hchained.cut_of_none hq⟩
  · have hids := (hperm.map Entry.key).nodup_iff.mpr h.nodup_ids
    exact hids.of_cons
  · have hhandles := (hperm.map Entry.handle).append_right t.free
    have hmove : ((t.release i e.handle).entries.map Entry.handle ++ e.handle :: t.free).Perm
        (e.handle :: (t.release i e.handle).entries.map Entry.handle ++ t.free) :=
      List.perm_middle
    exact (hmove.trans hhandles).nodup_iff.mpr h.nodup_handles
  · simp only [Roster.release, List.length_cons]
    omega

theorem erase (h : t.Coherent) (id : NodeId) : (t.erase id).Coherent := by
  rcases t.erase_cases id with ⟨_, heq⟩ | ⟨i, handle, hfind, heq⟩
  · rw [heq]
    exact h
  · obtain ⟨e, he, _, rfl, _⟩ := h.find?_eq_some_iff.mp hfind
    rw [heq]
    exact h.release he

end Coherent

end Roster

end PeerBeacon
