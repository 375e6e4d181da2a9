import PeerBeacon.Announcement

/-!
# Records of peers

What a node remembers about one peer, and the events that it reports.  A record is plain data: the
transitions in `PeerBeacon.Peer.Transition` keep its fields in step with the phase, but nothing here
forbids other combinations.
-/

namespace PeerBeacon

/-- How near a known peer is. -/
inductive Phase where
  /-- Known, but not heard yet. -/
  | unseen
  /-- Heard, but not for long enough. -/
  | nearing
  /-- Heard for long enough. -/
  | present
  /-- Present until recently, and quiet since. -/
  | leaving
  deriving DecidableEq, Repr

/-- What a node remembers about a peer. -/
structure Record where
  id : NodeId
  phase : Phase := .unseen
  /-- The start of the span that counts toward the next phase: of hearing while nearing, of silence
  while leaving. -/
  windowStart : Option Tick := none
  /-- The latest reception. -/
  lastHeard : Option Tick := none
  /-- When the peer became present. -/
  detectedAt : Option Tick := none
  deriving DecidableEq, Repr

namespace Record

/-- The record of a peer that has just become known. -/
def fresh (id : NodeId) : Record where
  id := id

/-- The record in a place that no peer takes. -/
def vacant : Record :=
  fresh NodeId.reserved

/-- The peer has been reported as present and not yet as absent. -/
def isDetected (r : Record) : Bool :=
  r.phase == .present || r.phase == .leaving

@[simp] theorem id_fresh (id : NodeId) : (fresh id).id = id := rfl

@[simp] theorem id_vacant : vacant.id = NodeId.reserved := rfl

theorem isDetected_eq_true_iff {r : Record} :
    r.isDetected = true ↔ r.phase = .present ∨ r.phase = .leaving := by
  simp [isDetected]

end Record

/-- A report about a peer. -/
inductive Event where
  /-- The peer is present, after an unbroken run that began at `since`. -/
  | detect (id : NodeId) (since : Tick)
  /-- The peer, last heard at `since`, has gone quiet; it may come back without another report. -/
  | leave (id : NodeId) (since : Tick)
  /-- The peer, last heard at `since`, is gone, `dwell` seconds after it became present. -/
  | absent (id : NodeId) (since : Tick) (dwell : UInt32)
  deriving DecidableEq, Repr

/-- The peer that an event is about. -/
def Event.id : Event → NodeId
  | detect id _ | leave id _ | absent id _ _ => id

end PeerBeacon
