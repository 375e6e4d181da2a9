import Mathlib.Data.Finset.Max
import Mathlib.Data.Fintype.Card
import Mathlib.Data.List.Nodup
import Mathlib.Order.Interval.Finset.Nat
import PeerBeacon.Proofs.Roster.Ledger

/-!
# Which buckets are in use

Two rosters that know the same peers may hold them in different buckets, since a peer takes the
first bucket that was empty when it came, and moves when another one is given up.  Yet the buckets
in use are the same ones (`Roster.run_occupied`): past insertions and removals decide who sits
where, but not where anybody sits, and a roster with a long history is searched along the same runs
of buckets as a new one with the same peers.

Comparing two histories step by step does not work, for they need not have a step in common.
Instead the buckets in use are computed from the ids alone.  Bucket `i` is in use if and only if it
is crowded: for some `n`, more than `n` of the ids have it at most `n` steps from where the search
for them begins (`Roster.Chained.index_ne_none_iff`).  If `i` is empty, then all those ids must do
with the `n` buckets before it.  If it is in use, then count from the last empty bucket on: whoever
sits in the run from there to `i` has its search begin there.
-/

namespace PeerBeacon

/-! ## Windows of a ring -/

namespace Ring

variable {size : Nat}

/-- Two positions that are equally many steps away from a third are the same. -/
theorem stepsFrom_left_inj {i j k : Fin size} :
    stepsFrom j i = stepsFrom k i ↔ j = k := by
  have hi := i.isLt
  have hj := j.isLt
  have hk := k.isLt
  rw [stepsFrom_eq, stepsFrom_eq, Nat.mod_eq_of_lt hj, Nat.mod_eq_of_lt hk, Fin.ext_iff]
  split_ifs <;> omega

/-- Some position is `n` steps away from `i`. -/
theorem exists_stepsFrom_eq (i : Fin size) {n : Nat} (h : n < size) :
    ∃ k : Fin size, stepsFrom k i = n := by
  have hinj : Function.Injective
      fun k : Fin size => (⟨stepsFrom k i, stepsFrom_lt _ _⟩ : Fin size) := by
    intro j k hjk
    exact stepsFrom_left_inj.mp (Fin.mk.inj hjk)
  obtain ⟨k, hk⟩ := Finite.surjective_of_injective hinj ⟨n, h⟩
  exact ⟨k, Fin.mk.inj hk⟩

/-- A position that the walk from `start` meets before `i` is nearer to `i` than `start` is. -/
theorem Before.stepsFrom_add {start : Nat} {k i : Fin size} (h : Before start k i) :
    stepsFrom start k + stepsFrom k i = stepsFrom start i := by
  have hk := stepsFrom_lt start k
  unfold Before at h
  rw [stepsFrom_rebase start k.val i, offset_val, if_pos h.le]
  omega

/-- If the walk from `start` to `k` does not meet `p`, and `k` lies between `p` and `i`, then
`start` is nearer to `i` than `p` is. -/
theorem stepsFrom_lt_of_not_before {start : Nat} {p k i : Fin size}
    (hk : stepsFrom k i < stepsFrom p i) (hp : ¬Before start p k) :
    stepsFrom start i < stepsFrom p i := by
  have hlt := stepsFrom_lt p i
  have hkp := stepsFrom_lt p k
  have hpp := stepsFrom_self p
  rw [before_iff p.val, hpp] at hp
  rw [stepsFrom_rebase p.val k.val i, offset_val] at hk
  rw [stepsFrom_rebase p.val start i]
  split_ifs at hk ⊢ <;> omega

end Ring

namespace Roster

variable {buckets records : Nat}

/-! ## Counting entries by their buckets -/

/-- The entries with a property are as many as the buckets that hold them. -/
theorem countP_inUse (index : Vector (Option (Entry records)) buckets) (p : Entry records → Bool) :
    (inUse index).countP p =
      (Finset.univ.filter fun k : Fin buckets => (index.get k).any p = true).card := by
  have hlist : index.toList = (List.finRange buckets).map index.get := by
    refine List.ext_getElem (by simp) fun k _ _ => ?_
    simp [Vector.get]
  have hset : (Finset.univ.filter fun k : Fin buckets => (index.get k).any p = true) =
      ((List.finRange buckets).filter fun k => (index.get k).any p).toFinset := by
    ext k
    simp
  rw [hset, List.toFinset_card_of_nodup ((List.nodup_finRange buckets).filter _),
    ← List.countP_eq_length_filter, inUse, hlist, List.countP_filterMap, List.countP_map]
  refine List.countP_congr fun k _ => ?_
  cases he : index.get k <;> simp [he]

/-! ## Crowded buckets -/

/-- For some `n`, more than `n` of the ids have bucket `i` at most `n` steps from where the search
for them begins. -/
def Crowded (ids : List NodeId) (i : Fin buckets) : Prop :=
  ∃ n, n < ids.countP fun id => Ring.stepsFrom id.toNat i ≤ n

/-- The order of the ids does not matter. -/
theorem Crowded.of_perm {ids ids' : List NodeId} {i : Fin buckets} (h : Crowded ids i)
    (hperm : ids.Perm ids') : Crowded ids' i := by
  obtain ⟨n, hn⟩ := h
  exact ⟨n, by rwa [← hperm.countP_eq]⟩

section Index

variable {index : Vector (Option (Entry records)) buckets} {i : Fin buckets}

theorem crowded_keys_iff :
    Crowded ((inUse index).map Entry.key) i ↔ ∃ n, n < (Finset.univ.filter fun k : Fin buckets =>
      ∃ e, index.get k = some e ∧ Ring.stepsFrom e.key.toNat i ≤ n).card := by
  refine exists_congr fun n => ?_
  rw [List.countP_map, countP_inUse]
  simp only [Option.any_eq_true, Function.comp_apply, decide_eq_true_eq]

/-- If all of the `n + 1` buckets up to `i` are held by entries whose searches begin among them,
then `i` is crowded. -/
theorem crowded_of_window {n : Nat} (hn : n < buckets)
    (h : ∀ k : Fin buckets, Ring.stepsFrom k i ≤ n →
      ∃ e, index.get k = some e ∧ Ring.stepsFrom e.key.toNat i ≤ n) :
    Crowded ((inUse index).map Entry.key) i := by
  rw [crowded_keys_iff]
  refine ⟨n, ?_⟩
  -- The window has a position for each number of steps up to `n`.
  have hwindow : Finset.range (n + 1) ⊆ (Finset.univ.filter fun k : Fin buckets =>
      ∃ e, index.get k = some e ∧ Ring.stepsFrom e.key.toNat i ≤ n).image
        fun k : Fin buckets => Ring.stepsFrom k i := by
    intro m hm
    have hmn : m ≤ n := Nat.lt_succ_iff.mp (Finset.mem_range.mp hm)
    obtain ⟨k, hk⟩ := Ring.exists_stepsFrom_eq i (Nat.lt_of_le_of_lt hmn hn)
    refine Finset.mem_image.mpr ⟨k, ?_, hk⟩
    exact Finset.mem_filter.mpr ⟨Finset.mem_univ k, h k (by omega)⟩
  have hcard := (Finset.card_le_card hwindow).trans Finset.card_image_le
  rwa [Finset.card_range] at hcard

/-- A bucket in use is crowded. -/
theorem Chained.crowded_of_ne_none (h : Chained index) (hi : index.get i ≠ none) :
    Crowded ((inUse index).map Entry.key) i := by
  by_cases hempty : ∃ p : Fin buckets, index.get p = none
  · -- The window reaches back to the last empty bucket.
    have hsome : (Finset.univ.filter fun p : Fin buckets => index.get p = none).Nonempty := by
      obtain ⟨p, hp⟩ := hempty
      exact ⟨p, Finset.mem_filter.mpr ⟨Finset.mem_univ p, hp⟩⟩
    obtain ⟨p, hp, hnearest⟩ :=
      Finset.exists_min_image _ (fun p : Fin buckets => Ring.stepsFrom p i) hsome
    have hnone : index.get p = none := (Finset.mem_filter.mp hp).2
    have hpos : 0 < Ring.stepsFrom p i := by
      refine Nat.pos_of_ne_zero fun hzero => hi ?_
      rw [← Ring.stepsFrom_self i, Ring.stepsFrom_left_inj] at hzero
      rw [← hzero, hnone]
    have hlt := Ring.stepsFrom_lt p i
    refine crowded_of_window (n := Ring.stepsFrom p i - 1) (by omega) fun k hk => ?_
    cases he : index.get k with
    | none =>
      have hfar := hnearest k (Finset.mem_filter.mpr ⟨Finset.mem_univ k, he⟩)
      omega
    | some e =>
      have hnot : ¬Ring.Before e.key.toNat p k := fun hbefore => h k e he p hbefore hnone
      have hnear := Ring.stepsFrom_lt_of_not_before (i := i) (by omega) hnot
      exact ⟨e, rfl, by omega⟩
  · -- The window is the whole ring.
    have hpos := i.pos
    refine crowded_of_window (n := buckets - 1) (by omega) fun k _ => ?_
    obtain ⟨e, he⟩ := Option.ne_none_iff_exists'.mp fun hnone => hempty ⟨k, hnone⟩
    have hlt := Ring.stepsFrom_lt e.key.toNat i
    exact ⟨e, he, by omega⟩

/-- An empty bucket is not crowded: an entry whose search begins before it sits before it. -/
theorem Chained.not_crowded_of_none (h : Chained index) (hi : index.get i = none) :
    ¬Crowded ((inUse index).map Entry.key) i := by
  rw [crowded_keys_iff]
  rintro ⟨n, hn⟩
  refine Nat.not_le_of_lt hn ?_
  have hbetween : ∀ k ∈ Finset.univ.filter fun k : Fin buckets =>
      ∃ e, index.get k = some e ∧ Ring.stepsFrom e.key.toNat i ≤ n,
        Ring.stepsFrom k i ∈ Finset.Icc 1 n := by
    intro k hk
    obtain ⟨e, he, hle⟩ := (Finset.mem_filter.mp hk).2
    have hne : i ≠ k := by
      rintro rfl
      rw [hi] at he
      cases he
    have hnot : ¬Ring.Before e.key.toNat i k := fun hbefore => h k e he i hbefore hi
    have hbefore : Ring.Before e.key.toNat k i := Ring.before_of_not_before hne hnot
    have hsum := hbefore.stepsFrom_add
    unfold Ring.Before at hbefore
    rw [Finset.mem_Icc]
    omega
  have hcard := Finset.card_le_card_of_injOn _ hbetween fun j _ k _ hjk =>
    Ring.stepsFrom_left_inj.mp hjk
  rwa [Nat.card_Icc, Nat.add_sub_cancel] at hcard

/-- **The buckets in use of a searchable index are the crowded ones.** -/
theorem Chained.index_ne_none_iff (h : Chained index) :
    index.get i ≠ none ↔ Crowded ((inUse index).map Entry.key) i := by
  constructor
  · exact h.crowded_of_ne_none
  · intro hcrowded hnone
    exact h.not_crowded_of_none hnone hcrowded

end Index

/-! ## The buckets in use of a roster -/

/-- The buckets in use. -/
def occupied (t : Roster buckets records) : Finset (Fin buckets) :=
  Finset.univ.filter fun i => t.index.get i ≠ none

theorem mem_occupied {t : Roster buckets records} {i : Fin buckets} :
    i ∈ t.occupied ↔ t.index.get i ≠ none := by
  unfold occupied
  rw [Finset.mem_filter]
  exact and_iff_right (Finset.mem_univ i)

/-- The buckets in use are determined by the ids. -/
theorem Coherent.occupied_eq {t u : Roster buckets records} (ht : t.Coherent) (hu : u.Coherent)
    (h : ∀ id, id ∈ t.ids ↔ id ∈ u.ids) : t.occupied = u.occupied := by
  have hperm : t.ids.Perm u.ids := (List.perm_ext_iff_of_nodup ht.nodup_ids hu.nodup_ids).mpr h
  ext i
  rw [mem_occupied, mem_occupied, ht.chained.index_ne_none_iff, hu.chained.index_ne_none_iff]
  exact ⟨fun hcrowded => hcrowded.of_perm hperm, fun hcrowded => hcrowded.of_perm hperm.symm⟩

/-! ## Survivors in a new roster -/

namespace Faithful

variable {t : Roster buckets records} {id : NodeId}

theorem mem_ids_insert (h : t.Faithful) (hyes : (t.insert id).answer = true) (id' : NodeId) :
    id' ∈ (t.insert id).state.ids ↔ id' = id ∨ id' ∈ t.ids := by
  rw [(h.insert id).mem_ids_iff, h.get?_insert, h.mem_ids_iff]
  by_cases heq : id' = id
  · simp [heq, hyes]
  · simp [heq]

/-- Peers for all of whom there is room are let in one after the other. -/
theorem mem_ids_run_inserts {all : List NodeId} (hroom : all.length ≤ min buckets records)
    (hreserved : NodeId.reserved ∉ all) (order : List NodeId) :
    ∀ {t : Roster buckets records}, t.Faithful → t.ids ⊆ all → order ⊆ all →
      ∀ id, id ∈ (t.run (order.map .insert)).1.ids ↔ id ∈ order ∨ id ∈ t.ids := by
  induction order with
  | nil =>
    intro t _ _ _ id
    rw [or_iff_right List.not_mem_nil]
    rfl
  | cons first order ih =>
    intro t h hknown horder id
    have hfirst : first ∈ all := horder List.mem_cons_self
    have hyes : (t.insert first).answer = true := by
      refine (h.answer_insert first).mpr ⟨fun heq => hreserved (heq ▸ hfirst), ?_⟩
      refine or_iff_not_imp_left.mpr fun hnew => ?_
      have hnodup : (first :: t.ids).Nodup := List.nodup_cons.mpr ⟨hnew, h.nodup_ids⟩
      have hle := (hnodup.subperm (List.cons_subset.mpr ⟨hfirst, hknown⟩)).length_le
      rw [List.length_cons, h.length_ids] at hle
      unfold capacity
      omega
    have hstep : ∀ id', id' ∈ (t.insert first).state.ids ↔ id' = first ∨ id' ∈ t.ids :=
      h.mem_ids_insert hyes
    have hknown' : (t.insert first).state.ids ⊆ all := by
      intro id' hid'
      rcases (hstep id').mp hid' with rfl | hid'
      · exact hfirst
      · exact hknown hid'
    have hrest := ih (h.insert first) hknown' (List.subset_of_cons_subset horder) id
    rw [hstep] at hrest
    rw [List.mem_cons, or_assoc, or_left_comm]
    exact hrest

/-- A new roster that the peers of another one are let into comes to know the same peers. -/
theorem mem_ids_run_survivors (h : t.Faithful) {order : List NodeId} (horder : order.Perm t.ids)
    (id : NodeId) :
    id ∈ ((Roster.empty buckets records).run (order.map .insert)).1.ids ↔ id ∈ t.ids := by
  have hroom : t.ids.length ≤ min buckets records := by
    rw [h.length_ids]
    exact h.count_le_capacity
  have hrun := mem_ids_run_inserts hroom (reserved_notMem_ids t) order
    (Faithful.empty buckets records) (by simp) horder.subset id
  rw [hrun, ids_empty, or_iff_left List.not_mem_nil, horder.mem_iff]

end Faithful

/-- **The past of a roster does not show in the buckets in use.**  Whatever operations have made two
rosters, if they know the same peers, then the same buckets of them are in use.  They are the
buckets that would be in use if these peers were let into a new roster, in any order. -/
theorem run_occupied {ops₁ ops₂ : List Op}
    (h : ∀ id, id ∈ ((empty buckets records).run ops₁).1.ids ↔
      id ∈ ((empty buckets records).run ops₂).1.ids) :
    ((empty buckets records).run ops₁).1.occupied =
        ((empty buckets records).run ops₂).1.occupied ∧
      ∀ order : List NodeId, order.Perm ((empty buckets records).run ops₁).1.ids →
        ((empty buckets records).run (order.map .insert)).1.occupied =
          ((empty buckets records).run ops₁).1.occupied := by
  have h₁ := faithful_run buckets records ops₁
  have h₂ := faithful_run buckets records ops₂
  refine ⟨h₁.occupied_eq h₂.toCoherent h, fun order horder => ?_⟩
  have hnew := faithful_run buckets records (order.map .insert)
  exact hnew.occupied_eq h₁.toCoherent (h₁.mem_ids_run_survivors horder)

/-- The same three peers, all of whose searches begin at the last of four buckets: left over when a
fourth was given up, let in in another order, and let into a new roster. -/
theorem run_occupied_aroundTheEnd :
    ((empty 4 4).run [.insert 3, .insert 7, .insert 11, .insert 19, .erase 7]).1.ids =
        [11, 19, 3] ∧
      ((empty 4 4).run [.insert 19, .insert 3, .insert 11]).1.ids = [3, 11, 19] ∧
      ((empty 4 4).run [.insert 3, .insert 7, .insert 11, .insert 19, .erase 7]).1.occupied =
        ((empty 4 4).run [.insert 19, .insert 3, .insert 11]).1.occupied ∧
      ((empty 4 4).run [.insert 11, .insert 3, .insert 19]).1.occupied =
        ((empty 4 4).run [.insert 3, .insert 7, .insert 11, .insert 19, .erase 7]).1.occupied := by
  have h₁ : ((empty 4 4).run [.insert 3, .insert 7, .insert 11, .insert 19, .erase 7]).1.ids =
      [11, 19, 3] := by decide
  have h₂ : ((empty 4 4).run [.insert 19, .insert 3, .insert 11]).1.ids = [3, 11, 19] := by
    decide
  have hsame : ∀ id, id ∈ ((empty 4 4).run
      [.insert 3, .insert 7, .insert 11, .insert 19, .erase 7]).1.ids ↔
        id ∈ ((empty 4 4).run [.insert 19, .insert 3, .insert 11]).1.ids := by
    intro id
    rw [h₁, h₂]
    exact List.Perm.mem_iff (by decide)
  have horder : [11, 3, 19].Perm
      ((empty 4 4).run [.insert 3, .insert 7, .insert 11, .insert 19, .erase 7]).1.ids := by
    rw [h₁]
    decide
  have hoccupied := run_occupied hsame
  exact ⟨h₁, h₂, hoccupied.1, hoccupied.2 [11, 3, 19] horder⟩

end Roster

end PeerBeacon
