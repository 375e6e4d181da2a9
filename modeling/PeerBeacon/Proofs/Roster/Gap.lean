import PeerBeacon.Proofs.Roster.Walk
import PeerBeacon.Roster.Edit

/-!
# Closing a gap in the index

A search gives up at the first empty bucket, so the index is searchable only if every bucket on the
way to an entry is in use (`Roster.Chained`).  Emptying a bucket leaves an index that is searchable
but for one gap, and `Roster.closeGap` moves entries back until the gap lies on nobody's way
(`Roster.Scan.chained_closeGap`).

An index with an empty bucket falls into runs of buckets in use, and the scan ends where the run of
the gap ends.  A full index is one run without an end, and there `Chained` says nothing at all: what
makes the scan correct is a *cut*, a bucket that no search for an entry of another bucket meets
(`Roster.Cut`).  In a full index that is the bucket that was filled last; with an empty bucket, any
empty one will do.  Moving an entry back only shortens its way, so one cut serves the whole scan.
-/

namespace PeerBeacon

namespace Roster

variable {buckets records : Nat}

theorem get_overwrite {α : Type u} {n : Nat} (v : Vector α n) (i j : Fin n) (a : α) :
    (overwrite v i a).get j = if j = i then a else v.get j := by
  have hset : (v.set i a i.isLt)[j.val] = if i.val = j.val then a else v[j.val] :=
    Vector.getElem_set i.isLt j.isLt
  simp only [Fin.ext_iff, eq_comm] at hset ⊢
  exact hset

/-! ## Searchable indices -/

/-- Every bucket on the way to an entry is in use. -/
def Chained (index : Vector (Option (Entry records)) buckets) : Prop :=
  ∀ (i : Fin buckets) (e : Entry records), index.get i = some e →
    ∀ j : Fin buckets, Ring.Before e.key.toNat j i → index.get j ≠ none

/-- No search for an entry of another bucket meets bucket `p`. -/
def Cut (index : Vector (Option (Entry records)) buckets) (p : Fin buckets) : Prop :=
  ∀ (i : Fin buckets) (e : Entry records), index.get i = some e → i ≠ p →
    ¬Ring.Before e.key.toNat p i

/-- An empty bucket of a searchable index is a cut. -/
theorem Chained.cut_of_none {index : Vector (Option (Entry records)) buckets} (h : Chained index)
    {p : Fin buckets} (hp : index.get p = none) : Cut index p :=
  fun i e he _ hbefore => h i e he p hbefore hp

/-! ## The scan

The positions that the scan has looked at are those within `n` steps of `base`, where the scan
began. -/

/-- The state of the scan: searchable but for a gap that no entry between the gap and the end of the
scanned part has on its way. -/
structure Scan (base p : Fin buckets) (n : Nat)
    (index : Vector (Option (Entry records)) buckets) (gap : Fin buckets) : Prop where
  gap_empty : index.get gap = none
  gap_lt : Ring.stepsFrom base gap < n
  chained_but_gap : ∀ (i : Fin buckets) (e : Entry records), index.get i = some e →
    ∀ j : Fin buckets, Ring.Before e.key.toNat j i → index.get j ≠ none ∨ j = gap
  settled : ∀ (i : Fin buckets) (e : Entry records), index.get i = some e →
    Ring.stepsFrom base gap < Ring.stepsFrom base i → Ring.stepsFrom base i < n →
    ¬Ring.Before e.key.toNat gap i
  cut : Cut index p
  gap_le_cut : Ring.stepsFrom base gap ≤ Ring.stepsFrom base p

namespace Scan

variable {base p gap i : Fin buckets} {n : Nat} {e : Entry records}
  {index : Vector (Option (Entry records)) buckets}

/-- A scan that has seen the whole ring leaves a searchable index: an entry in front of the gap
would have both the gap and the cut on its way. -/
theorem chained_of_le (h : Scan base p n index gap) (hn : buckets ≤ n) : Chained index := by
  intro i e he j hj
  refine (h.chained_but_gap i e he j hj).resolve_right ?_
  rintro rfl
  have hi := Ring.stepsFrom_lt base i
  rcases Nat.lt_or_ge (Ring.stepsFrom base j) (Ring.stepsFrom base i) with hlt | hge
  · exact h.settled i e he hlt (by omega) hj
  · have hle := h.gap_le_cut
    have hij : Ring.stepsFrom base i ≠ Ring.stepsFrom base j := by
      intro heq
      rw [Ring.stepsFrom_inj] at heq
      subst heq
      exact Ring.not_before_self _ _ hj
    have hcut : i ≠ p := by
      rintro rfl
      omega
    have hnot := h.cut i e he hcut
    rw [Ring.before_iff base] at hj hnot
    omega

/-- A scan that meets an empty bucket leaves a searchable index: an entry with the gap on its way
would have the empty bucket on its way too. -/
theorem chained_of_none (h : Scan base p n index gap) (hi : Ring.stepsFrom base i = n)
    (hnone : index.get i = none) : Chained index := by
  intro k e he j hj
  refine (h.chained_but_gap k e he j hj).resolve_right ?_
  rintro rfl
  have hgap := h.gap_lt
  have hki : Ring.stepsFrom base k ≠ Ring.stepsFrom base i := by
    intro heq
    rw [Ring.stepsFrom_inj] at heq
    subst heq
    rw [he] at hnone
    cases hnone
  have hset : ¬(Ring.stepsFrom base j < Ring.stepsFrom base k ∧ Ring.stepsFrom base k < n) :=
    fun hk => h.settled k e he hk.1 hk.2 hj
  have hmeet : Ring.Before e.key.toNat i k := by
    rw [Ring.before_iff base] at hj ⊢
    omega
  rcases h.chained_but_gap k e he i hmeet with hused | rfl
  · exact hused hnone
  · omega

/-- An entry that does not have the gap on its way stays. -/
theorem keep (h : Scan base p n index gap) (hi : Ring.stepsFrom base i = n)
    (he : index.get i = some e) (hkeep : ¬Ring.Before e.key.toNat gap i) :
    Scan base p (n + 1) index gap where
  gap_empty := h.gap_empty
  gap_lt := Nat.lt_succ_of_lt h.gap_lt
  chained_but_gap := h.chained_but_gap
  settled := by
    intro k d hd hgt hlt
    rcases Nat.lt_succ_iff_lt_or_eq.mp hlt with hlt | heq
    · exact h.settled k d hd hgt hlt
    · rw [← hi, Ring.stepsFrom_inj] at heq
      subst heq
      rw [he] at hd
      cases hd
      exact hkeep
  cut := h.cut
  gap_le_cut := h.gap_le_cut

/-- An entry that has the gap on its way moves into it and leaves a new gap behind. -/
theorem move (h : Scan base p n index gap) (hi : Ring.stepsFrom base i = n)
    (he : index.get i = some e) (hmove : Ring.Before e.key.toNat gap i) :
    Scan base p (n + 1) (overwrite (overwrite index gap (some e)) i none) i := by
  have hgap := h.gap_lt
  have hne : gap ≠ i := by
    rintro rfl
    exact Ring.not_before_self _ _ hmove
  -- An entry of the new index is the moved one or one of the old index.
  have hold : ∀ (k : Fin buckets) (d : Entry records),
      (overwrite (overwrite index gap (some e)) i none).get k = some d →
        (k = gap ∧ d = e) ∨ (k ≠ i ∧ index.get k = some d) := by
    intro k d hd
    rw [get_overwrite, get_overwrite] at hd
    split_ifs at hd with hki hkg
    · cases hd
      exact .inl ⟨hkg, rfl⟩
    · exact .inr ⟨hki, hd⟩
  have hused : ∀ j : Fin buckets, index.get j ≠ none → j ≠ i →
      (overwrite (overwrite index gap (some e)) i none).get j ≠ none := by
    intro j hj hji
    rw [get_overwrite, get_overwrite, if_neg hji]
    split_ifs
    · simp
    · exact hj
  refine ⟨?_, by omega, ?_, ?_, ?_, ?_⟩
  · rw [get_overwrite, if_pos rfl]
  · intro k d hd j hj
    by_cases hji : j = i
    · exact .inr hji
    refine .inl ?_
    rcases hold k d hd with ⟨rfl, rfl⟩ | ⟨hki, hd⟩
    · have hused' := h.chained_but_gap i d he j (hj.trans hmove)
      refine hused j (hused'.resolve_right ?_) hji
      rintro rfl
      exact Ring.not_before_self _ _ hj
    · rcases h.chained_but_gap k d hd j hj with hj' | rfl
      · exact hused j hj' hji
      · rw [get_overwrite, get_overwrite, if_neg hji, if_pos rfl]
        simp
  · intro k d _ hgt hlt
    omega
  · intro k d hd hk hbefore
    rcases hold k d hd with ⟨rfl, rfl⟩ | ⟨_, hd⟩
    · by_cases hip : i = p
      · subst hip
        exact Nat.lt_asymm hbefore hmove
      · exact h.cut i d he hip (hbefore.trans hmove)
    · exact h.cut k d hd hk hbefore
  · -- Beyond the cut, an entry with the gap on its way would have the cut on its way.
    refine Nat.le_of_not_lt fun hlt => ?_
    have hle := h.gap_le_cut
    have hip : i ≠ p := by
      rintro rfl
      omega
    have hnot := h.cut i e he hip
    rw [Ring.before_iff base] at hmove hnot
    omega

end Scan

/-- The scan from any state on leaves a searchable index. -/
theorem Scan.chained_closeGap {base p gap : Fin buckets} {n : Nat}
    {index : Vector (Option (Entry records)) buckets} (h : Scan base p n index gap) :
    Chained (closeGap index gap ((Ring.walk buckets base).drop n)) := by
  rcases Nat.lt_or_ge n buckets with hn | hn
  · obtain ⟨i, hi⟩ : ∃ i, i = Ring.shift base ⟨n, hn⟩ := ⟨_, rfl⟩
    have hsteps : Ring.stepsFrom base i = n := by rw [hi, Ring.stepsFrom_shift]
    rw [Ring.drop_walk hn, ← hi]
    cases he : index.get i with
    | none =>
      simp only [closeGap, he]
      exact h.chained_of_none hsteps he
    | some e =>
      simp only [closeGap, he]
      have hgap : Ring.stepsFrom e.key.toNat gap ≠ Ring.stepsFrom e.key.toNat i := by
        rw [Ne, Ring.stepsFrom_inj]
        rintro rfl
        have := h.gap_lt
        omega
      split_ifs with hstay <;> rw [Ring.stepsFrom_lt_stepsFrom_iff] at hstay
      · exact (h.keep hsteps he (Nat.lt_asymm hstay)).chained_closeGap
      · have hmove : Ring.Before e.key.toNat gap i := by
          unfold Ring.Before at hstay ⊢
          omega
        exact (h.move hsteps he hmove).chained_closeGap
  · rw [List.drop_eq_nil_of_le (by simpa using hn)]
    exact h.chained_of_le hn
termination_by buckets - n

end Roster

end PeerBeacon
