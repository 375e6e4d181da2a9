import Mathlib.Tactic.SplitIfs
import PeerBeacon.Peer.Transition

/-!
# One peer on its own

A record has four fields that must be kept in step.  Of the combinations that they allow only three
kinds occur, and `Peer` has a constructor for each, with the readings of the clock that belong to
it.  A peer that is not known is no peer at all.

The rules for one peer are `Peer.hear`, for being heard, and `Peer.age` with `Peer.due`, for a
sweep.  `Peer.record` is the record that stands for a peer, and the transitions of records agree
with the rules on such records.
-/

namespace PeerBeacon

/-- What is known about a peer, its id apart. -/
inductive Peer where
  /-- Heard since `first`, and last at `last`, but not for long enough. -/
  | nearing (first last : Tick)
  /-- Last heard at `last`, and present since `detectedAt`. -/
  | present (last detectedAt : Tick)
  /-- Last heard at `last`, present since `detectedAt`, and found quiet at `quietSince`. -/
  | leaving (quietSince last detectedAt : Tick)
  deriving DecidableEq, Repr

namespace Peer

/-- The peer has been reported as present and not yet as absent. -/
def isDetected : Peer → Bool
  | nearing .. => false
  | present .. | leaving .. => true

/-- The latest reception once a peer last heard at `last` is heard at `heard`: a reception that does
not lie ahead of it changes nothing. -/
def later (last heard : Tick) : Tick :=
  if Tick.elapsed heard last = 0 then last else heard

/-- A peer is heard at `heard`. -/
def hear (detectAfter : UInt32) (heard : Tick) : Peer → Peer
  | nearing first last =>
    if detectAfter ≤ Tick.elapsed (later last heard) first then
      present (later last heard) (later last heard)
    else
      nearing first (later last heard)
  | present last detectedAt => present (later last heard) detectedAt
  | leaving _ last detectedAt => present (later last heard) detectedAt

/-- The event that is due when a peer is heard at `heard`. -/
def hearEvent (detectAfter : UInt32) (heard : Tick) (id : NodeId) : Peer → Option Event
  | nearing first last =>
    if detectAfter ≤ Tick.elapsed (later last heard) first then some (.detect id first) else none
  | present .. | leaving .. => none

/-- What a sweep at `now` leaves of a peer, if anything. -/
def age (limits : Thresholds) (now : Tick) : Peer → Option Peer
  | nearing first last =>
    if limits.shortTimeout ≤ Tick.elapsed now last then none else some (nearing first last)
  | present last detectedAt =>
    if limits.absentAfter ≤ Tick.elapsed now last then none
    else if limits.leaveGrace ≤ Tick.elapsed now last then some (leaving now last detectedAt)
    else some (present last detectedAt)
  | leaving quietSince last detectedAt =>
    if limits.absentAfter ≤ Tick.elapsed now last then none
    else some (leaving quietSince last detectedAt)

/-- The event that is due when a sweep at `now` looks at a peer. -/
def due (limits : Thresholds) (now : Tick) (id : NodeId) : Peer → Option Event
  | nearing .. => none
  | present last detectedAt =>
    if limits.absentAfter ≤ Tick.elapsed now last then
      some (.absent id last (Tick.elapsed last detectedAt))
    else if limits.leaveGrace ≤ Tick.elapsed now last then some (.leave id last)
    else none
  | leaving _ last detectedAt =>
    if limits.absentAfter ≤ Tick.elapsed now last then
      some (.absent id last (Tick.elapsed last detectedAt))
    else none

/-- The latest reception of a peer. -/
def last : Peer → Tick
  | nearing _ last | present last _ | leaving _ last _ => last

theorem last_hear (detectAfter : UInt32) (heard : Tick) (p : Peer) :
    (p.hear detectAfter heard).last = later p.last heard := by
  cases p with
  | nearing first last =>
    rw [hear]
    split <;> rfl
  | present last detectedAt => rfl
  | leaving quietSince last detectedAt => rfl

/-- Only receptions move the latest one. -/
theorem last_of_age {limits : Thresholds} {now : Tick} {p q : Peer}
    (h : p.age limits now = some q) : q.last = p.last := by
  cases p with
  | nearing first last =>
    rw [age] at h
    split_ifs at h
    cases h
    rfl
  | present last detectedAt =>
    rw [age] at h
    split_ifs at h <;> cases h <;> rfl
  | leaving quietSince last detectedAt =>
    rw [age] at h
    split_ifs at h
    cases h
    rfl

/-! ## The record of a peer -/

/-- The record that stands for a peer. -/
def record (id : NodeId) : Peer → Record
  | nearing first last =>
    { id, phase := .nearing, windowStart := some first, lastHeard := some last }
  | present last detectedAt =>
    { id, phase := .present, lastHeard := some last, detectedAt := some detectedAt }
  | leaving quietSince last detectedAt =>
    { id
      phase := .leaving
      windowStart := some quietSince
      lastHeard := some last
      detectedAt := some detectedAt }

@[simp] theorem id_record (id : NodeId) (p : Peer) : (p.record id).id = id := by
  cases p <;> rfl

@[simp] theorem isDetected_record (id : NodeId) (p : Peer) :
    (p.record id).isDetected = p.isDetected := by
  cases p <;> rfl

@[simp] theorem lastHeard_record (id : NodeId) (p : Peer) :
    (p.record id).lastHeard = some p.last := by
  cases p <;> rfl

theorem latest_some (last heard : Tick) : Tick.latest (some last) heard = later last heard := rfl

/-- A peer that is heard for the first time is a nearing one. -/
theorem firstHearing_fresh (id : NodeId) (heard : Tick) :
    (Record.fresh id).firstHearing heard = (nearing heard heard).record id := rfl

/-- Hearing a peer changes its record by the rules for the peer. -/
theorem state_hear_record (detectAfter : UInt32) (heard : Tick) (id : NodeId) (p : Peer) :
    ((p.record id).hear detectAfter heard).state = (p.hear detectAfter heard).record id := by
  cases p with
  | nearing first last =>
    by_cases h : detectAfter ≤ Tick.elapsed (later last heard) first <;>
      simp [Record.hear, record, hear, latest_some, Tick.reached, h]
  | present last detectedAt => rfl
  | leaving quietSince last detectedAt => rfl

theorem answer_hear_record (detectAfter : UInt32) (heard : Tick) (id : NodeId) (p : Peer) :
    ((p.record id).hear detectAfter heard).answer = p.hearEvent detectAfter heard id := by
  cases p with
  | nearing first last =>
    by_cases h : detectAfter ≤ Tick.elapsed (later last heard) first <;>
      simp [Record.hear, record, hearEvent, latest_some, Tick.reached, h]
  | present last detectedAt => rfl
  | leaving quietSince last detectedAt => rfl

/-- A sweep gives up the record of a peer of which nothing is left. -/
theorem expires_aging_record (limits : Thresholds) (now : Tick) (id : NodeId) (p : Peer) :
    ((p.record id).aging limits now).expires = (p.age limits now).isNone := by
  cases p with
  | nearing first last =>
    simp only [Record.aging, record, age]
    split_ifs <;> rfl
  | present last detectedAt =>
    simp only [Record.aging, record, age]
    split_ifs <;> rfl
  | leaving quietSince last detectedAt =>
    simp only [Record.aging, record, age]
    split_ifs <;> rfl

/-- A sweep edits any other record by the rules for the peer. -/
theorem aged_record {limits : Thresholds} {now : Tick} {p q : Peer}
    (h : p.age limits now = some q) (id : NodeId) :
    (p.record id).aged limits now = q.record id := by
  cases p with
  | nearing first last =>
    simp only [Record.aged, Record.aging, record, age] at h ⊢
    split_ifs at h ⊢ <;> cases h <;> rfl
  | present last detectedAt =>
    simp only [Record.aged, Record.aging, record, age] at h ⊢
    split_ifs at h ⊢ <;> cases h <;> rfl
  | leaving quietSince last detectedAt =>
    simp only [Record.aged, Record.aging, record, age] at h ⊢
    split_ifs at h ⊢ <;> cases h <;> rfl

/-- A sweep reports what is due for the peer. -/
theorem event?_aging_record (limits : Thresholds) (now : Tick) (id : NodeId) (p : Peer) :
    ((p.record id).aging limits now).event? id = p.due limits now id := by
  cases p with
  | nearing first last =>
    simp only [Record.aging, record, due]
    split_ifs <;> rfl
  | present last detectedAt =>
    simp only [Record.aging, record, due]
    split_ifs <;> rfl
  | leaving quietSince last detectedAt =>
    simp only [Record.aging, record, due]
    split_ifs <;> rfl

end Peer

end PeerBeacon
