import PeerBeacon.Notice
import PeerBeacon.Roster.Basic

/-!
# Changes to a roster

Records are edited in place (`Roster.modify`, `Roster.mapIdx`), peers are let in (`Roster.insert`)
and given up (`Roster.erase?`).

Giving up a peer leaves no marker in the index.  Instead the buckets that follow are looked at one
after the other up to the next empty one, and an entry moves back into the gap, leaving a gap of its
own, whenever the gap lies on its way from where the search for it begins (`Roster.closeGap`).
-/

namespace PeerBeacon

namespace Roster

variable {buckets records : Nat}

/-! ## Editing records -/

/-- A vector with another element at one place. -/
def overwrite {α : Type u} {n : Nat} (v : Vector α n) (i : Fin n) (a : α) : Vector α n :=
  v.set i a i.isLt

/-- Edits the record of a peer, if the peer is known. -/
def modify (t : Roster buckets records) (id : NodeId) (f : Record → Record) :
    Roster buckets records :=
  match t.find? id with
  | none => t
  | some (_, handle) => { t with arena := overwrite t.arena handle (f (t.arena.get handle)) }

/-- Edits the record of each bucket in use, in index order; `f` is told how many came before. -/
def mapIdx (f : Nat → Record → Record) (t : Roster buckets records) : Roster buckets records :=
  { t with
    arena := t.entries.zipIdx.foldl
      (fun arena (e, i) => overwrite arena e.handle (f i (arena.get e.handle))) t.arena }

/-- Edits the record of each bucket in use. -/
def map (f : Record → Record) (t : Roster buckets records) : Roster buckets records :=
  t.mapIdx fun _ => f

/-! ## Letting a peer in -/

/-- Lets a peer in with a fresh record and answers whether that was possible.  The record of a known
peer starts anew; for any other id a place is claimed if there is one, and the bucket where the
search for the id ends, be it empty or stale, comes to lead to it. -/
def insert (t : Roster buckets records) (id : NodeId) : Outcome (Roster buckets records) Bool :=
  if h : id = NodeId.reserved then
    { state := t, answer := false }
  else
    match t.find? id with
    | some (_, handle) =>
      { state := { t with arena := overwrite t.arena handle (.fresh id) }
        answer := true }
    | none =>
      match t.seat? id, t.free with
      | some i, handle :: free =>
        { state :=
            { t with
              index := overwrite t.index i (some ⟨id, handle, h⟩)
              arena := overwrite t.arena handle (.fresh id)
              free := free
              count := t.count + 1 }
          answer := true }
      | _, _ =>
        { state := { t with refusals := t.refusals + 1 }
          answer := false
          notices := [.rosterFull t.count id] }

/-! ## Giving a peer up -/

/-- Closes the gap at an empty bucket, given the buckets that follow it.  An entry stays where it is
if the search for it begins after the gap. -/
def closeGap (index : Vector (Option (Entry records)) buckets) (gap : Fin buckets) :
    List (Fin buckets) → Vector (Option (Entry records)) buckets
  | [] => index
  | i :: rest =>
    match index.get i with
    | none => index
    | some e =>
      if Ring.stepsFrom e.key.toNat i < Ring.stepsFrom gap i then
        closeGap index gap rest
      else
        closeGap (overwrite (overwrite index gap (some e)) i none) i rest

/-- Gives up a known peer: empties its record, frees its place and closes the gap in the index. -/
def erase? (t : Roster buckets records) (id : NodeId) : Option (Roster buckets records) :=
  (t.find? id).map fun (i, handle) =>
    { t with
      index := closeGap (overwrite t.index i none) i (Ring.walk buckets i).tail
      arena := overwrite t.arena handle .vacant
      free := handle :: t.free
      count := t.count - 1 }

/-- Gives up a peer; an unknown one changes nothing. -/
def erase (t : Roster buckets records) (id : NodeId) : Roster buckets records :=
  (t.erase? id).getD t

/-- A peer can be given up if and only if it is known. -/
theorem isSome_erase? (t : Roster buckets records) (id : NodeId) :
    (t.erase? id).isSome = t.contains id := by
  simp [erase?, contains]

@[simp] theorem index_map (f : Record → Record) (t : Roster buckets records) :
    (t.map f).index = t.index := rfl

@[simp] theorem ids_map (f : Record → Record) (t : Roster buckets records) :
    (t.map f).ids = t.ids := rfl

@[simp] theorem insert_reserved (t : Roster buckets records) :
    t.insert NodeId.reserved = { state := t, answer := false } := rfl

end Roster

end PeerBeacon
