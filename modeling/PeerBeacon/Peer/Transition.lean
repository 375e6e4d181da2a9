import PeerBeacon.Notice
import PeerBeacon.Peer.Record
import PeerBeacon.Settings.Basic

/-!
# Phases of a peer

Two things happen to a peer.  It is heard, which can only bring it nearer (`Record.hear`); or a
sweep looks at how long it has been silent, which can only take it away (`Record.aging`).

    phase     when heard                   when found silent
    unseen    nearing                      forgotten
    nearing   present after detectAfter    forgotten after shortTimeout
    present   present                      leaving after leaveGrace, gone after absentAfter
    leaving   present                      gone after absentAfter

The span after which a peer is present and the silence after which it is absent are different
thresholds, so a peer at the edge of range gives one pair of events and not a stream of them.

What a sweep finds is a value of type `Aging`; the record that is left, the event, the notices and
whether the record expires are read off it.
-/

namespace PeerBeacon

namespace Record

/-! ## Being heard -/

/-- A known peer is heard. -/
def hear (detectAfter : UInt32) (heard : Tick) (r : Record) : Outcome Record (Option Event) :=
  let last := Tick.latest r.lastHeard heard
  match r.phase with
  | .unseen | .nearing =>
    let start := r.windowStart.getD heard
    if Tick.reached last start detectAfter then
      { state :=
          { r with
            phase := .present
            windowStart := none
            lastHeard := some last
            detectedAt := some last }
        answer := some (.detect r.id start)
        notices := [.detected r.id start] }
    else
      { state := { r with phase := .nearing, windowStart := some start, lastHeard := some last }
        answer := none }
  | .present =>
    { state := { r with lastHeard := some last }
      answer := none }
  | .leaving =>
    { state := { r with phase := .present, windowStart := none, lastHeard := some last }
      answer := none
      notices := [.returned r.id heard] }

/-- The record of a peer that is heard for the first time. -/
def firstHearing (heard : Tick) (r : Record) : Record :=
  { r with phase := .nearing, windowStart := some heard, lastHeard := some heard }

@[simp] theorem id_hear (detectAfter : UInt32) (heard : Tick) (r : Record) :
    (r.hear detectAfter heard).state.id = r.id := by
  unfold hear
  dsimp only
  split <;> try split
  all_goals rfl

@[simp] theorem lastHeard_hear (detectAfter : UInt32) (heard : Tick) (r : Record) :
    (r.hear detectAfter heard).state.lastHeard = some (Tick.latest r.lastHeard heard) := by
  unfold hear
  dsimp only
  split <;> try split
  all_goals rfl

@[simp] theorem id_firstHearing (heard : Tick) (r : Record) :
    (r.firstHearing heard).id = r.id := rfl

end Record

/-! ## Growing old -/

/-- What a sweep finds about one record. -/
inductive Aging where
  /-- Nothing is due. -/
  | unchanged
  /-- The record was claimed, but its peer was never heard. -/
  | unclassified
  /-- A nearing peer has fallen silent. -/
  | faded
  /-- A present peer, last heard at `since`, has gone quiet. -/
  | quiet (since : Tick)
  /-- A present or leaving peer, last heard at `since`, is gone. -/
  | gone (since : Tick) (dwell : UInt32)
  deriving DecidableEq, Repr

namespace Aging

/-- The record is given up. -/
def expires : Aging → Bool
  | unchanged | quiet _ => false
  | unclassified | faded | gone .. => true

/-- The event that is due for a peer. -/
def event? (id : NodeId) : Aging → Option Event
  | unchanged | unclassified | faded => none
  | quiet since => some (.leave id since)
  | gone since dwell => some (.absent id since dwell)

/-- The notice that is due for a peer. -/
def notice? (id : NodeId) : Aging → Option Notice
  | unchanged | unclassified => none
  | faded => some (.faded id)
  | quiet since => some (.leaving id since)
  | gone since _ => some (.absent id since)

end Aging

namespace Record

/-- The seconds between becoming present and the reading `last`. -/
def dwell (r : Record) (last : Tick) : UInt32 :=
  match r.detectedAt with
  | none => 0
  | some detected => Tick.elapsed last detected

/-- What a sweep at `now` finds about a record. -/
def aging (limits : Thresholds) (now : Tick) (r : Record) : Aging :=
  match r.lastHeard with
  | none => .unclassified
  | some last =>
    let silent := Tick.elapsed now last
    match r.phase with
    | .unseen => .unclassified
    | .nearing => if limits.shortTimeout ≤ silent then .faded else .unchanged
    | .present =>
      if limits.absentAfter ≤ silent then .gone last (r.dwell last)
      else if limits.leaveGrace ≤ silent then .quiet last
      else .unchanged
    | .leaving =>
      if limits.absentAfter ≤ silent then .gone last (r.dwell last) else .unchanged

/-- The record that a sweep at `now` leaves; only a peer that goes quiet changes its phase. -/
def aged (limits : Thresholds) (now : Tick) (r : Record) : Record :=
  match r.aging limits now with
  | .quiet _ => { r with phase := .leaving, windowStart := some now }
  | _ => r

@[simp] theorem id_aged (limits : Thresholds) (now : Tick) (r : Record) :
    (r.aged limits now).id = r.id := by
  unfold aged
  split <;> rfl

@[simp] theorem lastHeard_aged (limits : Thresholds) (now : Tick) (r : Record) :
    (r.aged limits now).lastHeard = r.lastHeard := by
  unfold aged
  split <;> rfl

@[simp] theorem detectedAt_aged (limits : Thresholds) (now : Tick) (r : Record) :
    (r.aged limits now).detectedAt = r.detectedAt := by
  unfold aged
  split <;> rfl

end Record

end PeerBeacon
