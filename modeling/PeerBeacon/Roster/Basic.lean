import PeerBeacon.Peer.Record
import PeerBeacon.Roster.Ring

/-!
# The roster of known peers

A roster has room for a fixed number of peers and never grows.  It consists of an *index*, a ring of
buckets searched by open addressing, and an *arena* of records.  A bucket in use holds the id of a
peer and a handle to its record; the search for an id starts at the id modulo the number of buckets
and walks on until it meets the id or an empty bucket.

A record can be edited in any way, even so that it carries another id than the bucket that leads to
it.  Such a bucket is *stale*: it still takes its place in the index, but a search that ends at it
finds nothing.

`Roster` is raw data.  What holds of a roster that has only seen insertions, removals and edits that
keep the ids is a matter of predicates on it.
-/

namespace PeerBeacon

/-- A bucket in use. -/
structure Roster.Entry (records : Nat) where
  /-- The id that the bucket is searched by. -/
  key : NodeId
  /-- The place of its record in the arena. -/
  handle : Fin records
  /-- The reserved id is not searched for. -/
  key_ne_reserved : key ≠ NodeId.reserved
  deriving DecidableEq, Repr

/-- A roster with the given numbers of buckets and records. -/
structure Roster (buckets records : Nat) where
  /-- The buckets. -/
  index : Vector (Option (Roster.Entry records)) buckets
  /-- The records, those in use and those that are free. -/
  arena : Vector Record records
  /-- The free places of the arena, the one to be claimed next first. -/
  free : List (Fin records)
  /-- The number of places claimed and not given back. -/
  count : Nat
  /-- The number of peers turned away for lack of room, modulo `2 ^ 32`. -/
  refusals : UInt32
  deriving DecidableEq, Repr

namespace Roster

variable {buckets records : Nat}

/-- A roster of no peers. -/
def empty (buckets records : Nat) : Roster buckets records where
  index := Vector.replicate buckets none
  arena := Vector.replicate records Record.vacant
  free := List.finRange records
  count := 0
  refusals := 0

/-- The number of peers that a roster can hold. -/
def capacity (_ : Roster buckets records) : Nat :=
  min buckets records

/-- The usual number of buckets. -/
def usualBuckets : Nat := 16

/-- The usual number of records; it may be smaller than the number of buckets. -/
def usualRecords : Nat := 8

/-! ## Enumeration -/

/-- The buckets in use, in index order. -/
def entries (t : Roster buckets records) : List (Entry records) :=
  t.index.toList.filterMap id

/-- The ids in the index, in index order. -/
def ids (t : Roster buckets records) : List NodeId :=
  t.entries.map Entry.key

/-- The records that the index leads to, in index order. -/
def tracked (t : Roster buckets records) : List Record :=
  t.entries.map fun e => t.arena.get e.handle

/-! ## Search -/

/-- A search for `id` ends at a bucket that is empty or holds `id`. -/
def endsSearch (id : NodeId) : Option (Entry records) → Bool
  | none => true
  | some e => e.key == id

/-- The bucket at which the search for `id` ends. -/
def seat? (t : Roster buckets records) (id : NodeId) : Option (Fin buckets) :=
  (Ring.walk buckets id.toNat).find? fun i => endsSearch id (t.index.get i)

/-- The bucket and the handle of `id`, if the search for it ends at a bucket whose record is its
own. -/
def find? (t : Roster buckets records) (id : NodeId) : Option (Fin buckets × Fin records) := do
  let i ← t.seat? id
  let e ← t.index.get i
  if (t.arena.get e.handle).id = id then some (i, e.handle) else none

/-- Whether a peer is known. -/
def contains (t : Roster buckets records) (id : NodeId) : Bool :=
  (t.find? id).isSome

/-- The record of a peer. -/
def get? (t : Roster buckets records) (id : NodeId) : Option Record :=
  (t.find? id).map fun (_, handle) => t.arena.get handle

theorem id_of_get? {t : Roster buckets records} {id : NodeId} {r : Record}
    (h : t.get? id = some r) : r.id = id := by
  simp only [get?, find?, Option.map_eq_some_iff, Option.bind_eq_bind,
    Option.bind_eq_some_iff] at h
  obtain ⟨_, ⟨_, _, _, _, h⟩, rfl⟩ := h
  split at h
  · cases h
    assumption
  · cases h

theorem contains_eq_isSome_get? (t : Roster buckets records) (id : NodeId) :
    t.contains id = (t.get? id).isSome := by
  simp [contains, get?]

end Roster

end PeerBeacon
