import Mathlib.Data.Finset.Card
import Mathlib.Data.Finset.Dedup
import PeerBeacon.Announcement

/-!
# Directories

A directory is a finite map from ids to values of some kind: the plain notion that the tables of a
node are compared with.  It has no order, no places and no limit of its own; the reserved id is in
none.  `Directory.Listing` says that a list goes through the ids of a directory once each.
-/

namespace PeerBeacon

/-- A finite map from ids that are not reserved. -/
structure Directory (α : Type u) where
  /-- The ids in the directory. -/
  ids : Finset NodeId
  /-- What is held under an id. -/
  get? : NodeId → Option α
  /-- Something is held under exactly the ids in the directory. -/
  mem_ids : ∀ id, id ∈ ids ↔ (get? id).isSome
  /-- Nothing is held under the reserved id. -/
  get?_reserved : get? NodeId.reserved = none

namespace Directory

variable {α : Type u} {β : Type v}

/-- Directories that hold the same are the same. -/
theorem ext {d d' : Directory α} (h : ∀ id, d.get? id = d'.get? id) : d = d' := by
  obtain ⟨ids, get?, hmem, _⟩ := d
  obtain ⟨ids', get?', hmem', _⟩ := d'
  have hget : get? = get?' := funext h
  subst hget
  have hids : ids = ids' := Finset.ext fun id => (hmem id).trans (hmem' id).symm
  subst hids
  rfl

/-- The number of ids in a directory. -/
def size (d : Directory α) : Nat :=
  d.ids.card

theorem get?_eq_none_iff {d : Directory α} {id : NodeId} : d.get? id = none ↔ id ∉ d.ids := by
  rw [d.mem_ids, Option.not_isSome_iff_eq_none]

/-! ## Changes -/

/-- The directory that holds nothing. -/
def empty : Directory α where
  ids := ∅
  get? _ := none
  mem_ids := by simp
  get?_reserved := rfl

/-- Holds `a` under `id`. -/
def insert (d : Directory α) (id : NodeId) (h : id ≠ NodeId.reserved) (a : α) : Directory α where
  ids := Insert.insert id d.ids
  get? id' := if id' = id then some a else d.get? id'
  mem_ids id' := by
    rw [Finset.mem_insert, d.mem_ids]
    by_cases hid : id' = id <;> simp [hid]
  get?_reserved := by rw [if_neg h.symm, d.get?_reserved]

/-- Holds nothing under `id`. -/
def erase (d : Directory α) (id : NodeId) : Directory α where
  ids := d.ids.erase id
  get? id' := if id' = id then none else d.get? id'
  mem_ids id' := by
    rw [Finset.mem_erase, d.mem_ids]
    by_cases hid : id' = id <;> simp [hid]
  get?_reserved := by
    split
    · rfl
    · exact d.get?_reserved

/-- Changes everything that is held, or gives it up. -/
def filterMap (f : NodeId → α → Option β) (d : Directory α) : Directory β where
  ids := d.ids.filter fun id => ((d.get? id).bind (f id)).isSome
  get? id := (d.get? id).bind (f id)
  mem_ids id := by
    rw [Finset.mem_filter, d.mem_ids]
    cases d.get? id <;> simp
  get?_reserved := by rw [d.get?_reserved, Option.bind_none]

/-- Changes everything that is held. -/
def map (f : NodeId → α → β) (d : Directory α) : Directory β :=
  d.filterMap fun id a => some (f id a)

/-- Changes what is held under one id, if anything is. -/
def modify (d : Directory α) (id : NodeId) (f : α → α) : Directory α :=
  d.map fun id' a => if id' = id then f a else a

@[simp] theorem get?_empty (id : NodeId) : (empty : Directory α).get? id = none := rfl

theorem get?_insert (d : Directory α) (id : NodeId) (h : id ≠ NodeId.reserved) (a : α)
    (id' : NodeId) :
    (d.insert id h a).get? id' = if id' = id then some a else d.get? id' := rfl

theorem get?_erase (d : Directory α) (id id' : NodeId) :
    (d.erase id).get? id' = if id' = id then none else d.get? id' := rfl

theorem get?_filterMap (f : NodeId → α → Option β) (d : Directory α) (id : NodeId) :
    (d.filterMap f).get? id = (d.get? id).bind (f id) := rfl

theorem get?_map (f : NodeId → α → β) (d : Directory α) (id : NodeId) :
    (d.map f).get? id = (d.get? id).map (f id) := by
  rw [map, get?_filterMap]
  cases d.get? id <;> rfl

theorem get?_modify (d : Directory α) (id : NodeId) (f : α → α) (id' : NodeId) :
    (d.modify id f).get? id' = if id' = id then (d.get? id).map f else d.get? id' := by
  rw [modify, get?_map]
  split
  · next hid => rw [hid]
  · exact Option.map_id'

/-- What has just been put under an id can be changed beforehand. -/
theorem modify_insert (d : Directory α) (id : NodeId) (h : id ≠ NodeId.reserved) (a : α)
    (f : α → α) : (d.insert id h a).modify id f = d.insert id h (f a) := by
  refine ext fun id' => ?_
  rw [get?_modify, get?_insert, get?_insert, get?_insert, if_pos rfl]
  by_cases hid : id' = id
  · rw [if_pos hid, if_pos hid, Option.map_some]
  · rw [if_neg hid, if_neg hid, if_neg hid]

/-! ## Changing everything after other changes -/

section Map

variable (d : Directory α) (id : NodeId) (g : NodeId → α → β)

theorem mem_ids_map : id ∈ (d.map g).ids ↔ id ∈ d.ids := by
  rw [mem_ids, mem_ids, get?_map, Option.isSome_map]

theorem size_map : (d.map g).size = d.size :=
  congrArg Finset.card (Finset.ext fun id => d.mem_ids_map id g)

theorem map_empty : (empty : Directory α).map g = empty :=
  ext fun id => get?_map g empty id

theorem map_insert (h : id ≠ NodeId.reserved) (a : α) :
    (d.insert id h a).map g = (d.map g).insert id h (g id a) := by
  refine ext fun id' => ?_
  rw [get?_map, get?_insert, get?_insert, get?_map]
  by_cases hid : id' = id
  · rw [if_pos hid, if_pos hid, hid, Option.map_some]
  · rw [if_neg hid, if_neg hid]

theorem map_modify {f : α → α} {f' : β → β} (h : ∀ a, g id (f a) = f' (g id a)) :
    (d.modify id f).map g = (d.map g).modify id f' := by
  refine ext fun id' => ?_
  rw [get?_map, get?_modify, get?_modify, get?_map, get?_map]
  by_cases hid : id' = id
  · subst hid
    rw [if_pos rfl, if_pos rfl, Option.map_map, Option.map_map]
    exact congrArg (fun k => Option.map k (d.get? id')) (funext h)
  · rw [if_neg hid, if_neg hid]

theorem map_filterMap {f : NodeId → α → Option α} {f' : NodeId → β → Option β}
    (h : ∀ id a, (f id a).map (g id) = f' id (g id a)) :
    (d.filterMap f).map g = (d.map g).filterMap f' := by
  refine ext fun id => ?_
  rw [get?_map, get?_filterMap, get?_filterMap, get?_map, Option.map_bind, Option.bind_map]
  exact congrArg (Option.bind (d.get? id)) (funext (h id))

end Map

/-! ## Listings -/

/-- A list that goes through the ids of a directory once each. -/
def Listing (d : Directory α) (order : List NodeId) : Prop :=
  order.Nodup ∧ ∀ id, id ∈ order ↔ id ∈ d.ids

theorem Listing.length_eq {d : Directory α} {order : List NodeId} (h : d.Listing order) :
    order.length = d.size := by
  have hids : order.toFinset = d.ids := Finset.ext fun id => List.mem_toFinset.trans (h.2 id)
  rw [size, ← hids, List.toFinset_card_of_nodup h.1]

theorem Listing.map {d : Directory α} {order : List NodeId} (h : d.Listing order)
    (g : NodeId → α → β) : (d.map g).Listing order :=
  ⟨h.1, fun id => (h.2 id).trans (d.mem_ids_map id g).symm⟩

end Directory

end PeerBeacon
