import PeerBeacon.Peer.Transition
import PeerBeacon.Roster.Edit

/-!
# Tracking peers

A tracker is a roster of peers together with the thresholds that decide their phases.  It is told of
every reception (`Tracker.receive`) and is swept from time to time (`Tracker.sweep`).

A sweep first looks at every record with the same reading of the clock, then edits the records, and
at last gives up those that have expired.  Its report has room for one entry per record of the
arena, and so has its list of expired peers.
-/

namespace PeerBeacon

/-- Lets a peer that is heard at `heard` into the roster, unless it is known, and answers whether
the roster knows it now. -/
def Roster.enroll {buckets records : Nat} (t : Roster buckets records) (id : NodeId)
    (heard : Tick) : Outcome (Roster buckets records) Bool :=
  if t.contains id then
    { state := t, answer := true }
  else
    let inserted := t.insert id
    if inserted.answer then
      { inserted with
        state := inserted.state.modify id (Record.firstHearing heard)
        notices := [.nearing id heard] }
    else
      inserted

/-- A roster and the thresholds applied to it. -/
structure Tracker (buckets records : Nat) where
  roster : Roster buckets records
  thresholds : Thresholds
  deriving DecidableEq, Repr

namespace Tracker

variable {buckets records : Nat}

/-- A tracker that knows no peer. -/
def start (buckets records : Nat) (thresholds : Thresholds) : Tracker buckets records where
  roster := .empty buckets records
  thresholds := thresholds

/-- Moves the signal threshold. -/
def setMinRssi (t : Tracker buckets records) (minRssi : Int16) : Tracker buckets records :=
  { t with thresholds := { t.thresholds with minRssi } }

/-- The phase of a peer. -/
def phase? (t : Tracker buckets records) (id : NodeId) : Option Phase :=
  (t.roster.get? id).map Record.phase

/-- The number of peers that are present or leaving. -/
def detectedCount (t : Tracker buckets records) : Nat :=
  (t.roster.ids.filterMap t.roster.get?).countP Record.isDetected

/-! ## Receptions -/

/-- An announcement from `id` is received at `heard`.  A weak one is ignored, and so is one from a
peer for which there is no room. -/
def receive (t : Tracker buckets records) (id : NodeId) (rssi : Int16) (heard : Tick) :
    Outcome (Tracker buckets records) (Option Event) :=
  if t.thresholds.qualifies rssi then
    let enrolled := t.roster.enroll id heard
    match enrolled.state.get? id with
    | none =>
      { state := { t with roster := enrolled.state }
        answer := none
        notices := enrolled.notices }
    | some record =>
      let outcome := record.hear t.thresholds.detectAfter heard
      { state := { t with roster := enrolled.state.modify id fun _ => outcome.state }
        answer := outcome.answer
        notices := enrolled.notices ++ outcome.notices }
  else
    { state := t, answer := none }

/-! ## Sweeps -/

/-- What a sweep at `now` finds, record by record in index order. -/
def agings (t : Tracker buckets records) (now : Tick) : List (NodeId × Aging) :=
  t.roster.tracked.map fun r => (r.id, r.aging t.thresholds now)

/-- The peers that a sweep at `now` gives up. -/
def expired (t : Tracker buckets records) (now : Tick) : List NodeId :=
  ((t.agings now).filterMap fun (id, a) => if a.expires then some id else none).take records

/-- The events that a sweep at `now` reports. -/
def dueEvents (t : Tracker buckets records) (now : Tick) : List Event :=
  ((t.agings now).filterMap fun (id, a) => a.event? id).take records

/-- Ages every known peer at `now`.  There is at most one event per peer, in index order. -/
def sweep (t : Tracker buckets records) (now : Tick) :
    Outcome (Tracker buckets records) (List Event) where
  state :=
    { t with
      roster := (t.expired now).foldl Roster.erase (t.roster.map (Record.aged t.thresholds now)) }
  answer := t.dueEvents now
  notices := (t.agings now).filterMap fun (id, a) => a.notice? id

@[simp] theorem thresholds_sweep (t : Tracker buckets records) (now : Tick) :
    (t.sweep now).state.thresholds = t.thresholds := rfl

@[simp] theorem thresholds_receive (t : Tracker buckets records) (id : NodeId) (rssi : Int16)
    (heard : Tick) : (t.receive id rssi heard).state.thresholds = t.thresholds := by
  unfold receive
  split
  · dsimp only
    split <;> rfl
  · rfl

/-- A weak announcement changes nothing and says nothing. -/
theorem receive_of_not_qualifies (t : Tracker buckets records) (id : NodeId) {rssi : Int16}
    (heard : Tick) (h : t.thresholds.qualifies rssi = false) :
    t.receive id rssi heard = { state := t, answer := none } := by
  simp [receive, h]

end Tracker

end PeerBeacon
