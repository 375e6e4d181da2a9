import Mathlib.Tactic.SplitIfs
import PeerBeacon.Proofs.Tracker.Translation

/-!
# Rolling all clock readings on

If all readings of the clock are rolled on by the same amount, records and events show readings that
are rolled on too, and nothing else changes: spans of time stay as they are (`Tick.elapsed_add`),
and a tracker looks at readings only through them.  Rolling on is therefore a translation of
trackers (`Translation.shifting`), and what is reported is the same but for the readings in it.
-/

namespace PeerBeacon

/-! ## Readings -/

namespace Tick

theorem reached_add (now since : Tick) (threshold : UInt32) (shift : Tick) :
    reached (now + shift) (since + shift) threshold = reached now since threshold := by
  rw [reached, elapsed_add, reached]

theorem latest_add (previous : Option Tick) (heard shift : Tick) :
    latest (previous.map (· + shift)) (heard + shift) = latest previous heard + shift := by
  cases previous with
  | none => rfl
  | some earlier =>
    rw [Option.map_some, latest_some, latest_some, elapsed_add]
    split <;> rfl

/-- No two readings become the same. -/
theorem map_add_eq_some_iff (previous : Option Tick) (now shift : Tick) :
    previous.map (· + shift) = some (now + shift) ↔ previous = some now := by
  cases previous with
  | none => exact iff_of_false nofun nofun
  | some earlier =>
    rw [Option.map_some, Option.some.injEq, Option.some.injEq]
    exact UInt32.add_left_inj shift

end Tick

/-! ## Records and events -/

/-- The event with the reading in it rolled on. -/
def Event.shift (c : Tick) : Event → Event
  | detect id since => detect id (since + c)
  | leave id since => leave id (since + c)
  | absent id since dwell => absent id (since + c) dwell

/-- What a sweep finds, with the reading in it rolled on. -/
def Aging.shift (c : Tick) : Aging → Aging
  | unchanged => unchanged
  | unclassified => unclassified
  | faded => faded
  | quiet since => quiet (since + c)
  | gone since dwell => gone (since + c) dwell

theorem Aging.expires_shift (c : Tick) (a : Aging) : (a.shift c).expires = a.expires := by
  cases a <;> rfl

theorem Aging.event?_shift (c : Tick) (id : NodeId) (a : Aging) :
    (a.shift c).event? id = (a.event? id).map (Event.shift c) := by
  cases a <;> rfl

namespace Record

/-- The record with all readings in it rolled on. -/
def shift (c : Tick) (r : Record) : Record :=
  { r with
    windowStart := r.windowStart.map (· + c)
    lastHeard := r.lastHeard.map (· + c)
    detectedAt := r.detectedAt.map (· + c) }

theorem getD_windowStart_shift (c heard : Tick) (r : Record) :
    (r.shift c).windowStart.getD (heard + c) = r.windowStart.getD heard + c := by
  unfold shift
  cases r.windowStart <;> rfl

theorem dwell_shift (c last : Tick) (r : Record) :
    (r.shift c).dwell (last + c) = r.dwell last := by
  unfold dwell shift
  cases r.detectedAt with
  | none => rfl
  | some detected => exact Tick.elapsed_add last detected c

/-- A record is heard in the same way at readings that are rolled on. -/
theorem hear_shift (c : Tick) (detectAfter : UInt32) (heard : Tick) (r : Record) :
    ((r.shift c).hear detectAfter (heard + c)).state = (r.hear detectAfter heard).state.shift c ∧
      ((r.shift c).hear detectAfter (heard + c)).answer =
        (r.hear detectAfter heard).answer.map (Event.shift c) := by
  have hlast : Tick.latest (r.shift c).lastHeard (heard + c) = Tick.latest r.lastHeard heard + c :=
    Tick.latest_add r.lastHeard heard c
  have hphase : (r.shift c).phase = r.phase := rfl
  unfold hear
  simp only [hlast, hphase, r.getD_windowStart_shift, Tick.reached_add]
  cases r.phase with
  | unseen =>
    dsimp only
    split_ifs <;> exact ⟨rfl, rfl⟩
  | nearing =>
    dsimp only
    split_ifs <;> exact ⟨rfl, rfl⟩
  | present => exact ⟨rfl, rfl⟩
  | leaving => exact ⟨rfl, rfl⟩

/-- A sweep finds the same at a reading that is rolled on. -/
theorem aging_shift (c : Tick) (limits : Thresholds) (now : Tick) (r : Record) :
    (r.shift c).aging limits (now + c) = (r.aging limits now).shift c := by
  unfold aging
  have hdwell : ∀ last, (r.shift c).dwell (last + c) = r.dwell last := fun last =>
    r.dwell_shift c last
  have hlast : (r.shift c).lastHeard = r.lastHeard.map (· + c) := rfl
  have hphase : (r.shift c).phase = r.phase := rfl
  rw [hlast, hphase]
  cases r.lastHeard with
  | none => rfl
  | some last =>
    simp only [Option.map_some, Tick.elapsed_add, hdwell]
    cases r.phase with
    | unseen => rfl
    | nearing =>
      dsimp only
      split_ifs <;> rfl
    | present =>
      dsimp only
      split_ifs <;> rfl
    | leaving =>
      dsimp only
      split_ifs <;> rfl

theorem aged_shift (c : Tick) (limits : Thresholds) (now : Tick) (r : Record) :
    (r.shift c).aged limits (now + c) = (r.aged limits now).shift c := by
  rw [aged, aged, aging_shift]
  cases r.aging limits now <;> rfl

end Record

/-- Rolling on. -/
def Translation.shifting (c : Tick) : Translation where
  apply := Record.shift c
  id_apply _ := rfl
  apply_fresh _ := rfl
  tick := (· + c)
  limits limits := limits
  qualifies_limits _ _ := rfl
  firstHearing_apply _ _ := rfl
  hear_apply limits heard r := (r.hear_shift c limits.detectAfter heard).1
  aged_apply := Record.aged_shift c
  expires_apply limits now r := by rw [Record.aging_shift, Aging.expires_shift]

/-! ## Trackers -/

namespace Tracker

variable {buckets records : Nat} (t : Tracker buckets records) (c : Tick)

/-- The tracker with all readings in its records rolled on. -/
def shift : Tracker buckets records :=
  t.translate (.shifting c)

theorem shift_start (thresholds : Thresholds) :
    (start buckets records thresholds).shift c = start buckets records thresholds :=
  congrArg (Tracker.mk · thresholds)
    (Roster.recast_empty (Translation.shifting c).toRecasting buckets records)

theorem answer_receive_shift (id : NodeId) (rssi : Int16) (heard : Tick) :
    ((t.shift c).receive id rssi (heard + c)).answer =
      (t.receive id rssi heard).answer.map (Event.shift c) :=
  t.answer_receive_translate (.shifting c) id rssi heard fun r =>
    (r.hear_shift c t.thresholds.detectAfter heard).2

theorem answer_sweep_shift (now : Tick) :
    ((t.shift c).sweep (now + c)).answer = (t.sweep now).answer.map (Event.shift c) := by
  have hevent : ∀ r : Record,
      ((r.shift c).aging t.thresholds (now + c)).event? r.id =
        ((r.aging t.thresholds now).event? r.id).map (Event.shift c) := by
    intro r
    rw [Record.aging_shift, Aging.event?_shift]
  have hanswer : (t.sweep now).answer = t.dueEvents now := rfl
  refine (t.dueEvents_translate (.shifting c) now).trans ?_
  rw [hanswer, dueEvents_eq_filterMap, List.map_take, List.map_filterMap]
  exact congrArg (fun f => (t.roster.tracked.filterMap f).take records) (funext hevent)

end Tracker

end PeerBeacon
