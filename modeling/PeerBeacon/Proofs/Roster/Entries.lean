import Mathlib.Data.List.Nodup
import PeerBeacon.Proofs.Roster.Gap

/-!
# Entries as a list

The index is a vector of buckets for a search, and a list of entries for an enumeration.  Writing a
bucket exchanges one entry of the list (`Roster.perm_inUse_set`), and closing a gap only permutes it
(`Roster.perm_inUse_closeGap`).  If the keys of the list differ, a key determines its bucket
(`Roster.bucket_eq_of_key_eq`).
-/

namespace PeerBeacon

namespace Roster

variable {buckets records : Nat}

/-- The entries of an index, in index order. -/
def inUse (index : Vector (Option (Entry records)) buckets) : List (Entry records) :=
  index.toList.filterMap id

theorem entries_eq_inUse (t : Roster buckets records) : t.entries = inUse t.index := rfl

/-- An entry is listed if and only if some bucket holds it. -/
theorem mem_inUse {index : Vector (Option (Entry records)) buckets} {e : Entry records} :
    e ∈ inUse index ↔ ∃ i : Fin buckets, index.get i = some e := by
  simp only [inUse, List.mem_filterMap, Vector.mem_toList_iff, Vector.mem_iff_getElem, id_eq]
  constructor
  · rintro ⟨_, ⟨i, hi, rfl⟩, he⟩
    exact ⟨⟨i, hi⟩, he⟩
  · rintro ⟨i, he⟩
    exact ⟨_, ⟨i.val, i.isLt, rfl⟩, he⟩

/-- The length of the list is the number of buckets in use. -/
theorem length_inUse_le (index : Vector (Option (Entry records)) buckets) :
    (inUse index).length ≤ buckets := by
  have h := List.length_filterMap_le id index.toList
  rwa [Vector.length_toList] at h

/-- There is an empty bucket if and only if there are fewer entries than buckets. -/
theorem length_inUse_lt_iff (index : Vector (Option (Entry records)) buckets) :
    (inUse index).length < buckets ↔ ∃ i : Fin buckets, index.get i = none := by
  have hle := length_inUse_le index
  have hall : (inUse index).length = buckets ↔ ∀ i : Fin buckets, index.get i ≠ none := by
    have hcount := List.countP_eq_length (p := Option.isSome) (l := index.toList)
    rw [Vector.length_toList] at hcount
    rw [inUse, List.length_filterMap_eq_countP]
    refine hcount.trans ⟨fun h i hi => ?_, fun h o ho => ?_⟩
    · have hmem : index.get i ∈ index.toList :=
        Vector.mem_toList_iff.mpr (Vector.mem_iff_getElem.mpr ⟨i, i.isLt, rfl⟩)
      have hsome := h (index.get i) hmem
      rw [hi] at hsome
      cases hsome
    · obtain ⟨i, hi, rfl⟩ := Vector.mem_iff_getElem.mp (Vector.mem_toList_iff.mp ho)
      exact Option.isSome_iff_ne_none.mpr (h ⟨i, hi⟩)
  constructor
  · intro hlt
    refine Decidable.byContradiction fun hno => ?_
    have := hall.mpr fun i hi => hno ⟨i, hi⟩
    omega
  · rintro ⟨i, hi⟩
    refine Nat.lt_of_le_of_ne hle fun heq => hall.mp heq i hi

/-! ## Writing a bucket -/

theorem filterMap_id_cons {α : Type u} (x : Option α) (l : List (Option α)) :
    (x :: l).filterMap id = x.toList ++ l.filterMap id := by
  cases x <;> simp

/-- Writing an element exchanges what it held for what it holds. -/
theorem perm_filterMap_id_set {α : Type u} (x : Option α) :
    ∀ (l : List (Option α)) (i : Nat) (hi : i < l.length),
      (l[i].toList ++ (l.set i x).filterMap id).Perm (x.toList ++ l.filterMap id)
  | a :: l, 0, _ => by
    simp only [List.getElem_cons_zero, List.set_cons_zero, filterMap_id_cons]
    exact List.perm_append_comm_assoc _ _ _
  | a :: l, i + 1, hi => by
    have hi' : i < l.length := Nat.lt_of_succ_lt_succ hi
    have ih := perm_filterMap_id_set x l i hi'
    simp only [List.getElem_cons_succ, List.set_cons_succ, filterMap_id_cons]
    calc (l[i].toList ++ (a.toList ++ (l.set i x).filterMap id)).Perm
          (a.toList ++ (l[i].toList ++ (l.set i x).filterMap id)) :=
        List.perm_append_comm_assoc _ _ _
      List.Perm _ (a.toList ++ (x.toList ++ l.filterMap id)) := ih.append_left _
      List.Perm _ (x.toList ++ (a.toList ++ l.filterMap id)) := List.perm_append_comm_assoc _ _ _

/-- Writing a bucket exchanges the entry it held for the one it holds. -/
theorem perm_inUse_set (index : Vector (Option (Entry records)) buckets) (i : Fin buckets)
    (x : Option (Entry records)) :
    ((index.get i).toList ++ inUse (overwrite index i x)).Perm (x.toList ++ inUse index) := by
  have h := perm_filterMap_id_set x index.toList i (by simp)
  rwa [Vector.getElem_toList, ← Vector.toList_set] at h

/-- Closing a gap permutes the entries. -/
theorem perm_inUse_closeGap (rest : List (Fin buckets)) :
    ∀ (index : Vector (Option (Entry records)) buckets) (gap : Fin buckets), index.get gap = none →
      (gap :: rest).Nodup → (inUse (closeGap index gap rest)).Perm (inUse index) := by
  induction rest with
  | nil =>
    intro index gap _ _
    exact List.Perm.refl _
  | cons i rest ih =>
    intro index gap hgap hnodup
    obtain ⟨hmem, hrest⟩ := List.nodup_cons.mp hnodup
    have hne : i ≠ gap := by
      rintro rfl
      exact hmem List.mem_cons_self
    unfold closeGap
    split
    · exact List.Perm.refl _
    · next e he =>
      split
      · have hkeep : (gap :: rest).Nodup :=
          hnodup.sublist ((List.sublist_cons_self i rest).cons_cons gap)
        exact ih index gap hgap hkeep
      · have hi : (overwrite index gap (some e)).get i = some e := by
          rw [get_overwrite, if_neg hne, he]
        have hfill := perm_inUse_set index gap (some e)
        have hclear := perm_inUse_set (overwrite index gap (some e)) i none
        rw [hgap] at hfill
        rw [hi] at hclear
        have hperm : (inUse (overwrite (overwrite index gap (some e)) i none)).Perm (inUse index) :=
          (hclear.trans hfill).cons_inv
        refine (ih _ i ?_ hrest).trans hperm
        rw [get_overwrite, if_pos rfl]

/-- The positions of a walk differ. -/
theorem nodup_walk (start : Nat) : (Ring.walk buckets start).Nodup := by
  refine (List.nodup_finRange buckets).map fun k l h => ?_
  have hk := Ring.stepsFrom_shift start k
  rw [h, Ring.stepsFrom_shift] at hk
  exact Fin.ext hk.symm

theorem walk_eq_cons (i : Fin buckets) :
    Ring.walk buckets i = i :: (Ring.walk buckets i).tail := by
  have h : (Ring.walk buckets i).drop 0 =
      Ring.shift i.val ⟨0, i.pos⟩ :: (Ring.walk buckets i).drop 1 := Ring.drop_walk i.pos
  have hsteps : Ring.stepsFrom i.val (Ring.shift i.val ⟨0, i.pos⟩) = Ring.stepsFrom i.val i := by
    rw [Ring.stepsFrom_shift, Ring.stepsFrom_self]
  rw [List.drop_zero, Ring.stepsFrom_inj.mp hsteps, List.drop_one] at h
  exact h

/-! ## Keys and buckets -/

/-- If the keys of the entries differ, a key determines its bucket. -/
theorem bucket_eq_of_key_eq {index : Vector (Option (Entry records)) buckets}
    (hnodup : ((inUse index).map Entry.key).Nodup) {i j : Fin buckets} {d e : Entry records}
    (hd : index.get i = some d) (he : index.get j = some e) (hkey : d.key = e.key) : i = j := by
  have hpair := hnodup
  rw [inUse, List.Nodup, List.pairwise_map, List.pairwise_filterMap,
    List.pairwise_iff_getElem] at hpair
  have hlt : ∀ (i j : Fin buckets) (d e : Entry records), index.get i = some d →
      index.get j = some e → d.key = e.key → ¬i < j := by
    intro i j d e hd he hkey hij
    have hplace : ∀ k : Fin buckets, k < index.toList.length := fun k => by simp
    have hlist : ∀ k : Fin buckets, index.toList.get ⟨k, hplace k⟩ = index.get k := fun k =>
      Vector.getElem_toList (hplace k)
    exact hpair i j (hplace i) (hplace j) hij d ((hlist i).trans hd) e ((hlist j).trans he) hkey
  have h₁ := hlt i j d e hd he hkey
  have h₂ := hlt j i e d he hd hkey.symm
  omega

end Roster

end PeerBeacon
