import PeerBeacon.Proofs.Directory
import PeerBeacon.Proofs.Roster.Faithful

/-!
# Letting peers in and giving them up

A faithful roster lets in every peer that it knows or has room for, and nobody else
(`Roster.Faithful.answer_insert`), and it forgets exactly the peer that is given up
(`Roster.Faithful.get?_erase`).  Claimed and released places stay in step with the list of free
ones, so faithfulness is kept.
-/

namespace PeerBeacon

namespace Roster

variable {buckets records : Nat}

namespace Faithful

variable {t : Roster buckets records} {id : NodeId}

/-! ## The empty roster -/

@[simp] theorem ids_empty (buckets records : Nat) : (Roster.empty buckets records).ids = [] := by
  simp [ids, entries, Roster.empty]

theorem empty (buckets records : Nat) : (Roster.empty buckets records).Faithful := by
  have hentries : (Roster.empty buckets records).entries = [] := by
    simp [entries, Roster.empty]
  refine ⟨Coherent.empty buckets records, ?_, ?_, ?_⟩
  · intro e he
    rw [hentries] at he
    exact absurd he List.not_mem_nil
  · rw [hentries]
    rfl
  · exact fun h _ => Vector.getElem_replicate h.isLt

@[simp] theorem get?_empty (buckets records : Nat) (id : NodeId) :
    (Roster.empty buckets records).get? id = none := by
  rw [(empty buckets records).get?_eq_none_iff, ids_empty]
  exact List.not_mem_nil

/-! ## Claiming places -/

/-- A search for an unknown peer finds no bucket if and only if all buckets are taken. -/
theorem seat?_eq_none_iff_full (h : t.Faithful) (hid : id ∉ t.ids) :
    t.seat? id = none ↔ t.count = buckets := by
  have hle := length_inUse_le t.index
  have hlt := length_inUse_lt_iff t.index
  have hempty : t.seat? id = none ↔ ¬∃ i : Fin buckets, t.index.get i = none := by
    rw [seat?_eq_none_iff]
    constructor
    · rintro hall ⟨i, hi⟩
      have := hall i
      rw [hi] at this
      cases this
    · intro hno i
      cases hi : t.index.get i with
      | none => exact absurd ⟨i, hi⟩ hno
      | some e =>
        rw [endsSearch_some, beq_eq_false_iff_ne]
        rintro rfl
        exact hid (List.mem_map.mpr ⟨e, mem_inUse.mpr ⟨i, hi⟩, rfl⟩)
  rw [hempty, ← hlt, h.count_eq, entries_eq_inUse]
  omega

theorem free_eq_nil_iff_full (h : t.Faithful) : t.free = [] ↔ t.count = records := by
  have hcount := h.count_add_free
  rw [← List.length_eq_zero_iff]
  omega

/-- The entries after a place has been claimed in an empty bucket. -/
theorem perm_entries_claim {i : Fin buckets} (hi : t.index.get i = none)
    (hid : id ≠ NodeId.reserved) (handle : Fin records) (free : List (Fin records)) :
    (t.claim id hid i handle free).entries.Perm (⟨id, handle, hid⟩ :: t.entries) := by
  have hperm := perm_inUse_set t.index i (some (⟨id, handle, hid⟩ : Entry records))
  rw [hi] at hperm
  exact hperm

variable {i : Fin buckets} {handle : Fin records} {free : List (Fin records)}

/-- The place that is claimed next is not in use. -/
theorem handle_ne_of_free (h : t.Faithful) (hfree : t.free = handle :: free) {e : Entry records}
    (he : e ∈ t.entries) : e.handle ≠ handle := by
  rintro rfl
  exact h.handle_notMem_free he (hfree ▸ List.mem_cons_self)

theorem claim (h : t.Faithful) (hid : id ≠ NodeId.reserved) (hnew : id ∉ t.ids)
    (hseat : t.seat? id = some i) (hfree : t.free = handle :: free) :
    (t.claim id hid i handle free).Faithful := by
  have hi := Coherent.index_seat?_of_notMem hseat hnew
  have hperm := perm_entries_claim hi hid handle free
  have hcoherent := h.toCoherent.claim hid hseat hfree
  refine ⟨hcoherent, ?_, ?_, ?_⟩
  · intro e he
    dsimp only [Roster.claim]
    rw [get_overwrite]
    rcases List.mem_cons.mp (hperm.mem_iff.mp he) with rfl | he
    · rw [if_pos rfl, Record.id_fresh]
    · rw [if_neg (h.handle_ne_of_free hfree he), h.owner e he]
  · have hlen := hperm.length_eq
    rw [hlen, List.length_cons, ← h.count_eq]
    rfl
  · intro k hk
    have hk' : k ∈ free := hk
    have hnodup := (List.nodup_append.mp hcoherent.nodup_handles).2.2
    have hne : k ≠ handle := by
      rintro rfl
      refine hnodup k ?_ k hk' rfl
      exact List.mem_map.mpr ⟨_, hperm.mem_iff.mpr List.mem_cons_self, rfl⟩
    dsimp only [Roster.claim]
    rw [get_overwrite, if_neg hne]
    exact h.vacant k (hfree ▸ List.mem_cons_of_mem _ hk')

theorem get?_claim (h : t.Faithful) (hid : id ≠ NodeId.reserved) (hnew : id ∉ t.ids)
    (hseat : t.seat? id = some i) (hfree : t.free = handle :: free) (id' : NodeId) :
    (t.claim id hid i handle free).get? id' =
      if id' = id then some (.fresh id) else t.get? id' := by
  have hi := Coherent.index_seat?_of_notMem hseat hnew
  have hperm := perm_entries_claim hi hid handle free
  have hclaim := h.claim hid hnew hseat hfree
  split
  · next hid' =>
    have hmem : ⟨id, handle, hid⟩ ∈ (t.claim id hid i handle free).entries :=
      hperm.mem_iff.mpr List.mem_cons_self
    refine hclaim.get?_eq_some_iff.mpr ⟨_, hmem, hid'.symm, ?_⟩
    dsimp only [Roster.claim]
    rw [get_overwrite, if_pos rfl]
  · next hid' =>
    refine Option.ext fun r => ?_
    rw [hclaim.get?_eq_some_iff, h.get?_eq_some_iff]
    dsimp only [Roster.claim]
    constructor
    · rintro ⟨e, he, hkey, hr⟩
      rcases List.mem_cons.mp (hperm.mem_iff.mp he) with rfl | he
      · exact absurd hkey.symm hid'
      · rw [get_overwrite, if_neg (h.handle_ne_of_free hfree he)] at hr
        exact ⟨e, he, hkey, hr⟩
    · rintro ⟨e, he, hkey, hr⟩
      refine ⟨e, hperm.mem_iff.mpr (List.mem_cons_of_mem _ he), hkey, ?_⟩
      rw [get_overwrite, if_neg (h.handle_ne_of_free hfree he)]
      exact hr

/-! ## Letting a peer in -/

theorem insert (h : t.Faithful) (id : NodeId) : (t.insert id).state.Faithful := by
  rcases t.insert_cases id with ⟨_, heq⟩ | ⟨_, i, handle, hfind, heq⟩ |
    ⟨hid, i, handle, free, hfind, hseat, hfree, heq⟩ | ⟨_, _, _, heq⟩
  · rw [heq]
    exact h
  · obtain ⟨e, he, rfl, rfl⟩ := h.find?_eq_some_iff.mp hfind
    rw [heq]
    exact h.setRecord (mem_inUse.mpr ⟨i, he⟩) (Record.id_fresh _)
  · rw [heq]
    exact h.claim hid (h.find?_eq_none_iff.mp hfind) hseat hfree
  · rw [heq]
    exact ⟨h.of_eq rfl rfl rfl, h.owner, h.count_eq, h.vacant⟩

/-- A peer is let in if and only if its id is not reserved and it is known or there is room. -/
theorem answer_insert (h : t.Faithful) (id : NodeId) :
    (t.insert id).answer = true ↔
      id ≠ NodeId.reserved ∧ (id ∈ t.ids ∨ t.count < t.capacity) := by
  have hle := h.count_le_capacity
  rcases t.insert_cases id with ⟨hid, heq⟩ | ⟨hid, i, handle, hfind, heq⟩ |
    ⟨hid, i, handle, free, hfind, hseat, hfree, heq⟩ | ⟨hid, hfind, hfull, heq⟩
  · rw [heq]
    exact iff_of_false Bool.false_ne_true fun hroom => hroom.1 hid
  · obtain ⟨e, he, rfl, _⟩ := h.find?_eq_some_iff.mp hfind
    rw [heq]
    exact iff_of_true rfl ⟨hid, .inl (List.mem_map.mpr ⟨e, mem_inUse.mpr ⟨i, he⟩, rfl⟩)⟩
  · have hnew := h.find?_eq_none_iff.mp hfind
    have hbuckets : t.count ≠ buckets := fun hfull => by
      rw [(h.seat?_eq_none_iff_full hnew).mpr hfull] at hseat
      cases hseat
    have hrecords : t.count ≠ records := fun hfull => by
      rw [h.free_eq_nil_iff_full.mpr hfull] at hfree
      cases hfree
    rw [heq]
    refine iff_of_true rfl ⟨hid, .inr ?_⟩
    rw [capacity] at hle ⊢
    omega
  · have hnew := h.find?_eq_none_iff.mp hfind
    rw [heq]
    refine iff_of_false Bool.false_ne_true fun hroom => ?_
    have hlt := hroom.2.resolve_left hnew
    rw [h.seat?_eq_none_iff_full hnew, h.free_eq_nil_iff_full] at hfull
    rw [capacity] at hlt
    omega

/-- A peer that is let in starts anew; all other records stay. -/
theorem get?_insert (h : t.Faithful) (id id' : NodeId) :
    (t.insert id).state.get? id' =
      if id' = id ∧ (t.insert id).answer = true then some (.fresh id) else t.get? id' := by
  rcases t.insert_cases id with ⟨_, heq⟩ | ⟨_, i, handle, hfind, heq⟩ |
    ⟨hid, i, handle, free, hfind, hseat, hfree, heq⟩ | ⟨_, _, _, heq⟩
  · simp only [heq, Bool.false_eq_true, and_false, if_false]
  · obtain ⟨e, he, rfl, rfl⟩ := h.find?_eq_some_iff.mp hfind
    simp only [heq, and_true]
    exact h.get?_setRecord (mem_inUse.mpr ⟨i, he⟩) (Record.id_fresh _) id'
  · simp only [heq, and_true]
    exact h.get?_claim hid (h.find?_eq_none_iff.mp hfind) hseat hfree id'
  · simp only [heq, Bool.false_eq_true, and_false, if_false]
    rfl

/-- Turning a peer away is counted, unless its id is reserved. -/
theorem refusals_insert (t : Roster buckets records) (id : NodeId) :
    (t.insert id).state.refusals =
      if id = NodeId.reserved ∨ (t.insert id).answer = true then t.refusals
      else t.refusals + 1 := by
  rcases t.insert_cases id with ⟨hid, heq⟩ | ⟨_, i, handle, _, heq⟩ |
    ⟨_, i, handle, free, _, _, _, heq⟩ | ⟨hid, _, _, heq⟩
  · rw [heq, if_pos (.inl hid)]
  · rw [heq, if_pos (.inr rfl)]
  · rw [heq, if_pos (.inr rfl)]
    rfl
  · rw [heq, if_neg]
    rintro (hid' | hanswer)
    · exact hid hid'
    · exact Bool.false_ne_true hanswer

/-! ## Giving a peer up -/

variable {e : Entry records}

theorem handle_ne_of_mem_release (h : t.Faithful) (he : t.index.get i = some e) {d : Entry records}
    (hd : d ∈ (t.release i e.handle).entries) : d.handle ≠ e.handle := by
  have hhandles := ((Coherent.perm_entries_release he e.handle).map Entry.handle).nodup_iff.mpr
    (List.nodup_append.mp h.nodup_handles).1
  intro heq
  exact (List.nodup_cons.mp hhandles).1 (List.mem_map.mpr ⟨d, hd, heq⟩)

theorem key_ne_of_mem_release (h : t.Faithful) (he : t.index.get i = some e) {d : Entry records}
    (hd : d ∈ (t.release i e.handle).entries) : d.key ≠ e.key := by
  have hids := ((Coherent.perm_entries_release he e.handle).map Entry.key).nodup_iff.mpr
    h.nodup_ids
  intro heq
  exact (List.nodup_cons.mp hids).1 (List.mem_map.mpr ⟨d, hd, heq⟩)

theorem release (h : t.Faithful) (he : t.index.get i = some e) :
    (t.release i e.handle).Faithful := by
  have hperm := Coherent.perm_entries_release he e.handle
  refine ⟨h.toCoherent.release he, ?_, ?_, ?_⟩
  · intro d hd
    have hd' : d ∈ t.entries := hperm.mem_iff.mp (List.mem_cons_of_mem _ hd)
    have hne := h.handle_ne_of_mem_release he hd
    dsimp only [Roster.release]
    rw [get_overwrite, if_neg hne, h.owner d hd']
  · have hlen := hperm.length_eq
    rw [List.length_cons] at hlen
    dsimp only [Roster.release]
    rw [h.count_eq, ← hlen, Nat.add_sub_cancel]
    rfl
  · intro k hk
    dsimp only [Roster.release]
    rw [get_overwrite]
    split
    · rfl
    · next hne =>
      rcases List.mem_cons.mp hk with hk | hk
      · exact absurd hk hne
      · exact h.vacant k hk

theorem get?_release (h : t.Faithful) (he : t.index.get i = some e) (id : NodeId) :
    (t.release i e.handle).get? id = if id = e.key then none else t.get? id := by
  have hrelease := h.release he
  have hperm := Coherent.perm_entries_release he e.handle
  split
  · next hid =>
    rw [hid, hrelease.get?_eq_none_iff]
    intro hmem
    obtain ⟨d, hd, hkey⟩ := List.mem_map.mp hmem
    exact h.key_ne_of_mem_release he hd hkey
  · next hid =>
    refine Option.ext fun r => ?_
    rw [hrelease.get?_eq_some_iff, h.get?_eq_some_iff]
    dsimp only [Roster.release]
    constructor
    · rintro ⟨d, hd, hkey, hr⟩
      rw [get_overwrite, if_neg (h.handle_ne_of_mem_release he hd)] at hr
      exact ⟨d, hperm.mem_iff.mp (List.mem_cons_of_mem _ hd), hkey, hr⟩
    · rintro ⟨d, hd, hkey, hr⟩
      rcases List.mem_cons.mp (hperm.mem_iff.mpr hd) with rfl | hd
      · exact absurd hkey.symm hid
      · refine ⟨d, hd, hkey, ?_⟩
        rw [get_overwrite, if_neg (h.handle_ne_of_mem_release he hd)]
        exact hr

theorem erase (h : t.Faithful) (id : NodeId) : (t.erase id).Faithful := by
  rcases t.erase_cases id with ⟨_, heq⟩ | ⟨i, handle, hfind, heq⟩
  · rw [heq]
    exact h
  · obtain ⟨e, he, rfl, rfl⟩ := h.find?_eq_some_iff.mp hfind
    rw [heq]
    exact h.release he

/-- Giving up a peer forgets that peer and no other. -/
theorem get?_erase (h : t.Faithful) (id id' : NodeId) :
    (t.erase id).get? id' = if id' = id then none else t.get? id' := by
  rcases t.erase_cases id with ⟨hfind, heq⟩ | ⟨i, handle, hfind, heq⟩
  · rw [heq]
    split
    · next hid =>
      rw [hid, h.get?_eq_none_iff, ← h.find?_eq_none_iff]
      exact hfind
    · rfl
  · obtain ⟨e, he, rfl, rfl⟩ := h.find?_eq_some_iff.mp hfind
    rw [heq]
    exact h.get?_release he id'

@[simp] theorem refusals_erase (t : Roster buckets records) (id : NodeId) :
    (t.erase id).refusals = t.refusals := by
  rcases t.erase_cases id with ⟨_, heq⟩ | ⟨i, handle, _, heq⟩
  · rw [heq]
  · rw [heq]
    rfl

/-- Giving up several peers one after the other keeps a roster faithful, forgets them all, and turns
nobody away. -/
theorem foldl_erase (gone : List NodeId) :
    ∀ {t : Roster buckets records}, t.Faithful →
      (gone.foldl Roster.erase t).Faithful ∧
        (∀ id, (gone.foldl Roster.erase t).get? id = if id ∈ gone then none else t.get? id) ∧
        (gone.foldl Roster.erase t).refusals = t.refusals := by
  induction gone with
  | nil => exact fun {t} h => ⟨h, fun id => (if_neg List.not_mem_nil).symm, rfl⟩
  | cons first rest ih =>
    intro t h
    obtain ⟨hfaithful, hget, hrefusals⟩ := ih (h.erase first)
    refine ⟨hfaithful, fun id => ?_, hrefusals.trans (refusals_erase t first)⟩
    rw [List.foldl_cons, hget id, h.get?_erase]
    by_cases hfirst : id = first
    · simp [hfirst]
    · simp [hfirst]

/-! ## The ids of a roster -/

/-- A roster that knows the ids of a directory lists them once each. -/
theorem listing {d : Directory α} (h : t.Faithful)
    (hd : ∀ id, (t.get? id).isSome = (d.get? id).isSome) : d.Listing t.ids :=
  ⟨h.nodup_ids, fun id => by rw [h.mem_ids_iff, hd, d.mem_ids]⟩

theorem count_eq_size {d : Directory α} (h : t.Faithful)
    (hd : ∀ id, (t.get? id).isSome = (d.get? id).isSome) : t.count = d.size := by
  rw [← (h.listing hd).length_eq, h.length_ids]

end Faithful

theorem contains_eq_decide {t : Roster buckets records} {d : Directory α}
    (hd : ∀ id, (t.get? id).isSome = (d.get? id).isSome) (id : NodeId) :
    t.contains id = decide (id ∈ d.ids) := by
  rw [contains_eq_isSome_get?, hd, Bool.eq_iff_iff, ← d.mem_ids, decide_eq_true_iff]

end Roster

end PeerBeacon
