import PeerBeacon.Proofs.Roster.Ledger

/-!
# Visits leave no trace

A peer that is let in and given up again has taken a bucket and a place of the arena for a while,
and its record may have been edited in between.  Afterwards the roster is not only the same map as
before: every bucket and every record, free ones included, and the order of the free places are what
they were (`Roster.run_visit`).

The place is given back to the head of the list it was taken from, and a free place is vacant, so
that emptying the record restores it.  What needs an argument is the index, since giving up a peer
moves entries.  The bucket that the visitor takes was empty.  No search for another entry met it
then, or that search would have ended there, so that no entry moves when it is emptied again
(`Roster.Chained.closeGap_eq_self`).  This holds for a run of buckets that goes around the end of
the ring, and for a roster that the visitor has made full.
-/

namespace PeerBeacon

namespace Roster

variable {buckets records : Nat}

/-! ## Overwriting what was overwritten -/

theorem overwrite_overwrite {α : Type u} {n : Nat} (v : Vector α n) (i : Fin n) (a b : α) :
    overwrite (overwrite v i a) i b = overwrite v i b := by
  unfold overwrite
  rw [Vector.set_set]

theorem overwrite_get {α : Type u} {n : Nat} (v : Vector α n) (i : Fin n) {a : α}
    (h : v.get i = a) : overwrite v i a = v := by
  subst h
  exact Vector.set_getElem_self i.isLt

/-! ## Gaps that are on nobody's way -/

/-- In a searchable index an empty bucket is on the way to no entry, and closing it as a gap moves
nothing. -/
theorem Chained.closeGap_eq_self {index : Vector (Option (Entry records)) buckets}
    (h : Chained index) {gap : Fin buckets} (hgap : index.get gap = none) :
    ∀ rest : List (Fin buckets), gap ∉ rest → closeGap index gap rest = index := by
  intro rest
  induction rest with
  | nil =>
    intro _
    rfl
  | cons i rest ih =>
    intro hmem
    unfold closeGap
    split
    · rfl
    · next e he =>
      have hne : gap ≠ i := fun heq => hmem (heq ▸ List.mem_cons_self)
      have hnot : ¬Ring.Before e.key.toNat gap i := fun hbefore => h i e he gap hbefore hgap
      have hstay : Ring.stepsFrom e.key.toNat i < Ring.stepsFrom gap i := by
        rw [Ring.stepsFrom_lt_stepsFrom_iff]
        exact Ring.before_of_not_before hne hnot
      rw [if_pos hstay]
      exact ih fun hrest => hmem (List.mem_cons_of_mem i hrest)

theorem notMem_tail_walk (i : Fin buckets) : i ∉ (Ring.walk buckets i).tail := by
  have hnodup : (Ring.walk buckets i).Nodup := nodup_walk i
  rw [walk_eq_cons] at hnodup
  exact (List.nodup_cons.mp hnodup).1

namespace Faithful

variable {t : Roster buckets records} {id : NodeId} {i : Fin buckets} {handle : Fin records}
  {free : List (Fin records)}

/-- Releasing a bucket and a place that have just been claimed restores the roster, whatever stands
in the record. -/
theorem release_claim (h : t.Faithful) (hid : id ≠ NodeId.reserved) (hnew : id ∉ t.ids)
    (hseat : t.seat? id = some i) (hfree : t.free = handle :: free) (r : Record) :
    Roster.release
      { t.claim id hid i handle free with
        arena := overwrite (t.claim id hid i handle free).arena handle r } i handle = t := by
  have hempty : t.index.get i = none := Coherent.index_seat?_of_notMem hseat hnew
  have hvacant : t.arena.get handle = Record.vacant :=
    h.vacant handle (hfree ▸ List.mem_cons_self)
  have hindex : closeGap (overwrite (overwrite t.index i (some ⟨id, handle, hid⟩)) i none) i
      (Ring.walk buckets i).tail = t.index := by
    rw [overwrite_overwrite, overwrite_get t.index i hempty]
    exact h.chained.closeGap_eq_self hempty _ (notMem_tail_walk i)
  have harena : overwrite (overwrite (overwrite t.arena handle (.fresh id)) handle r) handle
      .vacant = t.arena := by
    rw [overwrite_overwrite, overwrite_overwrite, overwrite_get t.arena handle hvacant]
  unfold Roster.release Roster.claim
  dsimp only
  rw [hindex, harena, ← hfree, Nat.add_sub_cancel]

/-! ## Editing one record again and again -/

/-- Edits of one peer come to writing one record, which still carries the id of the peer. -/
theorem exists_run_edits (edits : List Edit) :
    ∀ {t : Roster buckets records}, t.Faithful → t.find? id = some (i, handle) →
      ∃ r : Record, r.id = id ∧
        (t.run (edits.map (.edit id))).1 = { t with arena := overwrite t.arena handle r } := by
  induction edits with
  | nil =>
    intro t h hfind
    obtain ⟨e, he, rfl, rfl⟩ := h.find?_eq_some_iff.mp hfind
    refine ⟨t.arena.get e.handle, h.owner e (mem_inUse.mpr ⟨i, he⟩), ?_⟩
    rw [overwrite_get t.arena e.handle rfl]
    rfl
  | cons f edits ih =>
    intro t h hfind
    obtain ⟨e, he, rfl, rfl⟩ := h.find?_eq_some_iff.mp hfind
    have hmem : e ∈ t.entries := mem_inUse.mpr ⟨i, he⟩
    have hkeep : (f.apply (t.arena.get e.handle)).id = e.key := by
      rw [f.id_apply, h.owner e hmem]
    have hset := h.setRecord hmem hkeep
    have hfirst : t.modify e.key f.apply = _ := h.modify_of_mem hmem f.apply
    obtain ⟨r, hr, hrun⟩ := ih hset (hset.find?_eq_some_iff.mpr ⟨e, he, rfl, rfl⟩)
    refine ⟨r, hr, ?_⟩
    rw [overwrite_overwrite] at hrun
    rw [← hrun, ← hfirst]
    rfl

end Faithful

/-! ## Visits -/

/-- A peer is let in, its record is edited, and the peer is given up. -/
def visit (id : NodeId) (edits : List Edit) : List Op :=
  .insert id :: (edits.map (.edit id) ++ [.erase id])

theorem fst_run_append (ops later : List Op) :
    ∀ t : Roster buckets records, (t.run (ops ++ later)).1 = ((t.run ops).1.run later).1 := by
  induction ops with
  | nil =>
    intro t
    rfl
  | cons op ops ih =>
    intro t
    exact ih (t.perform op).1

/-- A faithful roster with room for an unknown peer lets it in by claiming a bucket and a place. -/
theorem Faithful.exists_insert_eq_claim {t : Roster buckets records} {id : NodeId}
    (h : t.Faithful) (hid : id ≠ NodeId.reserved) (hnew : id ∉ t.ids)
    (hroom : t.count < t.capacity) :
    ∃ i handle free, t.seat? id = some i ∧ t.free = handle :: free ∧
      t.insert id = { state := t.claim id hid i handle free, answer := true } := by
  have hyes : (t.insert id).answer = true := (h.answer_insert id).mpr ⟨hid, .inr hroom⟩
  have hunknown : t.find? id = none := h.find?_eq_none_iff.mpr hnew
  rcases t.insert_cases id with ⟨hreserved, _⟩ | ⟨_, i, handle, hfind, _⟩ |
    ⟨_, i, handle, free, _, hseat, hfree, heq⟩ | ⟨_, _, _, heq⟩
  · exact absurd hreserved hid
  · rw [hunknown] at hfind
    cases hfind
  · exact ⟨i, handle, free, hseat, hfree, heq⟩
  · rw [heq] at hyes
    cases hyes

/-- A visit to a faithful roster with room for the visitor restores the roster. -/
theorem Faithful.run_visit_eq {t : Roster buckets records} {id : NodeId} (h : t.Faithful)
    (hid : id ≠ NodeId.reserved) (hnew : id ∉ t.ids) (hroom : t.count < t.capacity)
    (edits : List Edit) : (t.run (visit id edits)).1 = t := by
  obtain ⟨i, handle, free, hseat, hfree, hinsert⟩ := h.exists_insert_eq_claim hid hnew hroom
  have hclaim := h.claim hid hnew hseat hfree
  have hentry : (t.claim id hid i handle free).index.get i = some ⟨id, handle, hid⟩ := by
    unfold Roster.claim
    rw [get_overwrite, if_pos rfl]
  have hfind : (t.claim id hid i handle free).find? id = some (i, handle) :=
    hclaim.find?_eq_some_iff.mpr ⟨⟨id, handle, hid⟩, hentry, rfl, rfl⟩
  obtain ⟨r, hr, hedits⟩ := Faithful.exists_run_edits edits hclaim hfind
  have hedited := hclaim.setRecord (mem_inUse.mpr ⟨i, hentry⟩) hr
  have hstill := hedited.find?_eq_some_iff.mpr ⟨⟨id, handle, hid⟩, hentry, rfl, rfl⟩
  have hstart : (t.run (visit id edits)).1 =
      ((t.insert id).state.run (edits.map (.edit id) ++ [.erase id])).1 := rfl
  rw [hstart, hinsert, fst_run_append, hedits]
  rcases erase_cases _ id with ⟨hfind, _⟩ | ⟨_, _, hfind, herase⟩
  · rw [hstill] at hfind
    cases hfind
  · rw [hstill] at hfind
    cases hfind
    exact herase.trans (h.release_claim hid hnew hseat hfree r)

/-- **A visit leaves no trace.**  Take any roster that operations have made of an empty one, and a
peer that it does not know but has room for.  The peer is let in, and when it has been given up,
after any edits of its record, the roster is what it was. -/
theorem run_visit (ops : List Op) {id : NodeId} (hid : id ≠ NodeId.reserved)
    (hnew : id ∉ ((empty buckets records).run ops).1.ids)
    (hroom : ((empty buckets records).run ops).1.count <
      ((empty buckets records).run ops).1.capacity) (edits : List Edit) :
    (((empty buckets records).run ops).1.insert id).answer = true ∧
      ((empty buckets records).run (ops ++ visit id edits)).1 =
        ((empty buckets records).run ops).1 := by
  have hfaithful := faithful_run buckets records ops
  refine ⟨(hfaithful.answer_insert id).mpr ⟨hid, .inr hroom⟩, ?_⟩
  rw [fst_run_append]
  exact hfaithful.run_visit_eq hid hnew hroom edits

/-- Operations after which three of four buckets are in use, around the end of the ring, by peers
whose searches all begin at the last one. -/
def aroundTheEnd : List Op :=
  [.insert 3, .insert 7, .insert 11, .insert 19, .erase 7]

/-- Another such peer makes the roster full, is heard, and is given up again. -/
theorem run_visit_full :
    (15 : NodeId) ≠ NodeId.reserved ∧
      ((empty 4 4).run aroundTheEnd).1.ids = [11, 19, 3] ∧
      ((empty 4 4).run aroundTheEnd).1.count < ((empty 4 4).run aroundTheEnd).1.capacity ∧
      (((empty 4 4).run aroundTheEnd).1.insert 15).state.ids = [11, 19, 15, 3] ∧
      ((empty 4 4).run (aroundTheEnd ++
          visit 15 [⟨fun r => { r with lastHeard := some 42 }, fun _ => rfl⟩])).1 =
        ((empty 4 4).run aroundTheEnd).1 := by
  have hids : ((empty 4 4).run aroundTheEnd).1.ids = [11, 19, 3] := by decide
  have hroom : ((empty 4 4).run aroundTheEnd).1.count <
      ((empty 4 4).run aroundTheEnd).1.capacity := by decide
  have hnew : (15 : NodeId) ∉ ((empty 4 4).run aroundTheEnd).1.ids := by
    rw [hids]
    decide
  exact ⟨by decide, hids, hroom, by decide, (run_visit aroundTheEnd (by decide) hnew hroom _).2⟩

end Roster

end PeerBeacon
