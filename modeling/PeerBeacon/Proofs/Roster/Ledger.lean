import PeerBeacon.Proofs.Directory
import PeerBeacon.Proofs.Roster.Membership

/-!
# A roster is a finite map

What a roster is for can be said without buckets, handles and free places: it is a directory of
records with room for a fixed number of them, together with a count of the peers it turned away.
`Ledger` is that plain account, and `Ledger.Step` gives its rules.  The one thing they leave open is
the order in which records are visited; each visit goes through all of them once.

Every sequence of operations on a roster, with the answers that it gives, is one of the ledger
(`Roster.run_refines_ledger`), and what can be seen of the roster afterwards is what the ledger
holds (`Roster.Represents`).
-/

namespace PeerBeacon

namespace Roster

/-! ## Operations and their answers -/

/-- An edit of a record that keeps its id. -/
structure Edit where
  apply : Record → Record
  id_apply : ∀ r, (apply r).id = r.id

/-- An operation on a roster. -/
inductive Op where
  /-- Let a peer in. -/
  | insert (id : NodeId)
  /-- Give a peer up. -/
  | erase (id : NodeId)
  /-- Edit the record of a peer. -/
  | edit (id : NodeId) (f : Edit)
  /-- Edit all records; the record that is visited after `k` others is edited by `f k`. -/
  | editAll (f : Nat → Edit)

/-- The answer to an operation. -/
inductive Reply where
  /-- The record that was found or made, if any. -/
  | record (r : Option Record)
  /-- Whether a peer was given up. -/
  | erased (known : Bool)
  /-- The records visited, in order and as they were found. -/
  | visited (rs : List Record)

variable {buckets records : Nat}

/-- Performs an operation. -/
def perform (t : Roster buckets records) : Op → Roster buckets records × Reply
  | .insert id =>
    let outcome := t.insert id
    (outcome.state, .record (if outcome.answer then outcome.state.get? id else none))
  | .erase id => (t.erase id, .erased (t.erase? id).isSome)
  | .edit id f => (t.modify id f.apply, .record (t.get? id))
  | .editAll f => (t.mapIdx fun k => (f k).apply, .visited t.tracked)

/-- Performs operations one after the other and collects the answers. -/
def run (t : Roster buckets records) : List Op → Roster buckets records × List Reply
  | [] => (t, [])
  | op :: ops =>
    let (u, reply) := t.perform op
    let (v, replies) := run u ops
    (v, reply :: replies)

end Roster

/-! ## The plain account -/

/-- A directory of records and the number of peers turned away, modulo `2 ^ 32`. -/
structure Ledger where
  records : Directory Record
  refusals : UInt32

namespace Ledger

/-- A ledger without records. -/
def empty : Ledger where
  records := .empty
  refusals := 0

/-- The rules of a ledger with room for `capacity` records. -/
inductive Step (capacity : Nat) (l : Ledger) : Roster.Op → Roster.Reply → Ledger → Prop where
  /-- A known peer, or one for which there is room, gets a fresh record. -/
  | welcome {id : NodeId} (h : id ≠ NodeId.reserved)
      (room : id ∈ l.records.ids ∨ l.records.size < capacity) :
      Step capacity l (.insert id) (.record (some (.fresh id)))
        { l with records := l.records.insert id h (.fresh id) }
  /-- An unknown peer for which there is no room is turned away and counted. -/
  | refuse {id : NodeId} (h : id ≠ NodeId.reserved) (unknown : id ∉ l.records.ids)
      (full : capacity ≤ l.records.size) :
      Step capacity l (.insert id) (.record none) { l with refusals := l.refusals + 1 }
  /-- The reserved id gets no record and is not counted. -/
  | ignore : Step capacity l (.insert NodeId.reserved) (.record none) l
  /-- A peer that is given up loses its record. -/
  | erase {id : NodeId} :
      Step capacity l (.erase id) (.erased (decide (id ∈ l.records.ids)))
        { l with records := l.records.erase id }
  /-- An edit changes the record of one peer. -/
  | edit {id : NodeId} {f : Roster.Edit} :
      Step capacity l (.edit id f) (.record (l.records.get? id))
        { l with records := l.records.modify id f.apply }
  /-- A visit goes through all records once each, in some order. -/
  | editAll {f : Nat → Roster.Edit} {order : List NodeId} (h : l.records.Listing order) :
      Step capacity l (.editAll f) (.visited (order.filterMap l.records.get?))
        { l with records := l.records.map fun id => (f (order.idxOf id)).apply }

/-- The runs of a ledger, with the answers that it gives. -/
inductive Run (capacity : Nat) : Ledger → List Roster.Op → List Roster.Reply → Ledger → Prop where
  | nil {l : Ledger} : Run capacity l [] [] l
  | cons {l m n : Ledger} {op : Roster.Op} {reply : Roster.Reply} {ops : List Roster.Op}
      {replies : List Roster.Reply} (step : Step capacity l op reply m)
      (rest : Run capacity m ops replies n) :
      Run capacity l (op :: ops) (reply :: replies) n

end Ledger

namespace Roster

variable {buckets records : Nat}

/-- What can be seen of a roster is what the ledger holds. -/
structure Represents (t : Roster buckets records) (l : Ledger) : Prop where
  get?_eq : ∀ id, t.get? id = l.records.get? id
  contains_eq : ∀ id, t.contains id = decide (id ∈ l.records.ids)
  listing : l.records.Listing t.ids
  tracked_eq : t.tracked.map some = t.ids.map l.records.get?
  ids_eq : t.tracked.map Record.id = t.ids
  count_eq : t.count = l.records.size
  size_le : l.records.size ≤ min buckets records
  refusals_eq : t.refusals = l.refusals

/-- A faithful roster and a ledger with the same records and refusals. -/
structure Mirrors (t : Roster buckets records) (l : Ledger) : Prop where
  faithful : t.Faithful
  get?_eq : ∀ id, t.get? id = l.records.get? id
  refusals_eq : t.refusals = l.refusals

namespace Mirrors

variable {t : Roster buckets records} {l : Ledger}

theorem listing (h : t.Mirrors l) : l.records.Listing t.ids :=
  h.faithful.listing fun id => by rw [h.get?_eq]

theorem mem_ids_iff (h : t.Mirrors l) (id : NodeId) : id ∈ t.ids ↔ id ∈ l.records.ids :=
  h.listing.2 id

theorem count_eq (h : t.Mirrors l) : t.count = l.records.size :=
  h.faithful.count_eq_size fun id => by rw [h.get?_eq]

theorem contains_eq (h : t.Mirrors l) (id : NodeId) :
    t.contains id = decide (id ∈ l.records.ids) :=
  contains_eq_decide (fun id => by rw [h.get?_eq]) id

theorem represents (h : t.Mirrors l) : t.Represents l where
  get?_eq := h.get?_eq
  contains_eq := h.contains_eq
  listing := h.listing
  tracked_eq := by
    rw [h.faithful.map_some_tracked]
    exact List.map_congr_left fun id _ => h.get?_eq id
  ids_eq := h.faithful.map_id_tracked
  count_eq := h.count_eq
  size_le := by
    rw [← h.count_eq]
    exact h.faithful.count_le_capacity
  refusals_eq := h.refusals_eq

theorem empty (buckets records : Nat) : (Roster.empty buckets records).Mirrors .empty where
  faithful := Faithful.empty buckets records
  get?_eq := Faithful.get?_empty buckets records
  refusals_eq := rfl

theorem tracked_eq (h : t.Mirrors l) : t.tracked = t.ids.filterMap l.records.get? := by
  rw [h.faithful.tracked_eq]
  exact List.filterMap_congr fun id _ => h.get?_eq id

/-- Letting a peer in is a step of the ledger: the peer is admitted, refused or ignored. -/
theorem exists_step_insert (h : t.Mirrors l) (id : NodeId) :
    ∃ m, Ledger.Step (min buckets records) l (.insert id) (t.perform (.insert id)).2 m ∧
      (t.insert id).state.Mirrors m := by
  have hget := h.faithful.get?_insert id
  have hrefusals := Faithful.refusals_insert t id
  have hanswer := h.faithful.answer_insert id
  have hinsert := h.faithful.insert id
  by_cases hid : id = NodeId.reserved
  · subst hid
    exact ⟨l, .ignore, h⟩
  · rw [h.mem_ids_iff, h.count_eq] at hanswer
    cases hyes : (t.insert id).answer with
    | true =>
      simp only [hyes, and_true, or_true, if_true] at hget hrefusals
      refine ⟨{ l with records := l.records.insert id hid (.fresh id) }, ?_, hinsert,
        fun id' => (hget id').trans ?_, hrefusals.trans h.refusals_eq⟩
      · have hreply : (t.perform (.insert id)).2 = .record (some (.fresh id)) := by
          simp only [perform, hyes, if_true, hget id]
        rw [hreply]
        exact .welcome hid (hanswer.mp hyes).2
      · rw [h.get?_eq, Directory.get?_insert]
    | false =>
      have hno : ¬(id ∈ l.records.ids ∨ l.records.size < min buckets records) := by
        intro hroom
        rw [hanswer.mpr ⟨hid, hroom⟩] at hyes
        cases hyes
      have hfull := not_or.mp hno
      simp only [hyes, Bool.false_eq_true, and_false, or_false, hid, if_false] at hget hrefusals
      refine ⟨{ l with refusals := l.refusals + 1 }, ?_, hinsert,
        fun id' => (hget id').trans (h.get?_eq id'), ?_⟩
      · have hreply : (t.perform (.insert id)).2 = .record none := by
          simp only [perform, hyes, Bool.false_eq_true, if_false]
        rw [hreply]
        exact .refuse hid hfull.1 (Nat.le_of_not_lt hfull.2)
      · exact hrefusals.trans (congrArg (· + 1) h.refusals_eq)

/-- Giving a peer up is a step of the ledger. -/
theorem exists_step_erase (h : t.Mirrors l) (id : NodeId) :
    ∃ m, Ledger.Step (min buckets records) l (.erase id) (t.perform (.erase id)).2 m ∧
      (t.erase id).Mirrors m := by
  refine ⟨{ l with records := l.records.erase id }, ?_, h.faithful.erase id, fun id' => ?_, ?_⟩
  · rw [perform, isSome_erase?, h.contains_eq]
    exact .erase
  · exact (h.faithful.get?_erase id id').trans (by rw [h.get?_eq, Directory.get?_erase])
  · exact (Faithful.refusals_erase t id).trans h.refusals_eq

/-- Editing the record of a peer is a step of the ledger. -/
theorem exists_step_edit (h : t.Mirrors l) (id : NodeId) (f : Edit) :
    ∃ m, Ledger.Step (min buckets records) l (.edit id f) (t.perform (.edit id f)).2 m ∧
      (t.modify id f.apply).Mirrors m := by
  have hkeep : ∀ r, t.get? id = some r → (f.apply r).id = id := fun r hr => by
    rw [f.id_apply, id_of_get? hr]
  refine ⟨{ l with records := l.records.modify id f.apply }, ?_, h.faithful.modify hkeep,
    fun id' => ?_, ?_⟩
  · rw [perform, h.get?_eq]
    exact .edit
  · refine (h.faithful.get?_modify hkeep id').trans ?_
    rw [h.get?_eq, h.get?_eq, Directory.get?_modify]
  · exact (refusals_modify t id f.apply).trans h.refusals_eq

/-- Editing all records is a step of the ledger that visits them in index order. -/
theorem exists_step_editAll (h : t.Mirrors l) (f : Nat → Edit) :
    ∃ m, Ledger.Step (min buckets records) l (.editAll f) (t.perform (.editAll f)).2 m ∧
      (t.mapIdx fun k => (f k).apply).Mirrors m := by
  have hkeep : ∀ k r, ((f k).apply r).id = r.id := fun k => (f k).id_apply
  refine ⟨{ l with records := l.records.map fun id => (f (t.ids.idxOf id)).apply }, ?_,
    h.faithful.mapIdx hkeep, fun id => ?_, h.refusals_eq⟩
  · have hreply : (t.perform (.editAll f)).2 = .visited (t.ids.filterMap l.records.get?) := by
      rw [perform, h.tracked_eq]
    rw [hreply]
    exact .editAll h.listing
  · refine (h.faithful.get?_mapIdx hkeep id).trans ?_
    rw [h.get?_eq, Directory.get?_map]

/-- Each operation on a roster is a step of the ledger. -/
theorem exists_step (h : t.Mirrors l) (op : Op) :
    ∃ m, Ledger.Step (min buckets records) l op (t.perform op).2 m ∧
      (t.perform op).1.Mirrors m := by
  cases op with
  | insert id => exact h.exists_step_insert id
  | erase id => exact h.exists_step_erase id
  | edit id f => exact h.exists_step_edit id f
  | editAll f => exact h.exists_step_editAll f

/-- Every sequence of operations on a roster is a run of the ledger. -/
theorem exists_run (ops : List Op) :
    ∀ {t : Roster buckets records} {l : Ledger}, t.Mirrors l →
      ∃ m, Ledger.Run (min buckets records) l ops (t.run ops).2 m ∧ (t.run ops).1.Mirrors m := by
  induction ops with
  | nil => exact fun {t l} h => ⟨l, .nil, h⟩
  | cons op ops ih =>
    intro t l h
    obtain ⟨m, hstep, hm⟩ := h.exists_step op
    obtain ⟨n, hrest, hn⟩ := ih hm
    exact ⟨n, .cons hstep hrest, hn⟩

end Mirrors

/-! ## Runs of a faithful roster -/

theorem Faithful.perform {t : Roster buckets records} (h : t.Faithful) (op : Op) :
    (t.perform op).1.Faithful := by
  cases op with
  | insert id => exact h.insert id
  | erase id => exact h.erase id
  | edit id f => exact h.modify fun r hr => by rw [f.id_apply, id_of_get? hr]
  | editAll f => exact h.mapIdx fun k => (f k).id_apply

theorem Faithful.run {t : Roster buckets records} (h : t.Faithful) (ops : List Op) :
    (t.run ops).1.Faithful := by
  induction ops generalizing t with
  | nil => exact h
  | cons op ops ih => exact ih (h.perform op)

/-- A roster that was empty once is faithful. -/
theorem faithful_run (buckets records : Nat) (ops : List Op) :
    ((Roster.empty buckets records).run ops).1.Faithful :=
  (Faithful.empty buckets records).run ops

/-- **A roster is a finite map.**  From an empty roster on, any operations with the answers they
give are a run of the ledger with room for as many peers as there are both buckets and records, and
the roster shows what the ledger holds. -/
theorem run_refines_ledger (buckets records : Nat) (ops : List Op) :
    ∃ l : Ledger,
      Ledger.Run (min buckets records) .empty ops ((empty buckets records).run ops).2 l ∧
        ((empty buckets records).run ops).1.Represents l := by
  obtain ⟨l, hrun, hl⟩ := Mirrors.exists_run ops (Mirrors.empty buckets records)
  exact ⟨l, hrun, hl.represents⟩

end Roster

end PeerBeacon
