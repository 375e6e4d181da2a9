import PeerBeacon.Proofs.Seconds
import PeerBeacon.Proofs.Tracker.View

/-!
# Diaries of a tracker

A diary says what a tracker is asked to do, and in which second.  The seconds are counted without
bound from a start that means nothing, and the calls that are made see them modulo `2 ^ 32`
(`Entry.call`).  From a diary one can read off when a peer was heard (`hearings`) and when there was
a sweep (`sweeps`).

A diary is `Regular` if it is kept in order, covers less than half the range of the clock, and has a
sweep in every so many seconds.  Of a peer whose record survives, such a diary says that it was
never silent for long: what has to be shown is that no sweep stands at a time when it would have
found the peer silent (`Regular.exists_sweep_before`).
-/

namespace PeerBeacon

namespace Tracker

variable {buckets records : Nat}

/-! ## Thresholds in force -/

/-- The thresholds in force after a call: only the signal threshold ever moves. -/
def Call.adjust (limits : Thresholds) : Call → Thresholds
  | .setMinRssi minRssi => { limits with minRssi }
  | .receive .. | .sweep _ => limits

/-- The thresholds in force after some calls. -/
def adjusted (limits : Thresholds) (calls : List Call) : Thresholds :=
  calls.foldl Call.adjust limits

theorem thresholds_call (t : Tracker buckets records) (call : Call) :
    (t.call call).1.thresholds = call.adjust t.thresholds := by
  cases call with
  | receive id rssi heard => exact t.thresholds_receive id rssi heard
  | sweep now => exact t.thresholds_sweep now
  | setMinRssi minRssi => rfl

theorem thresholds_run (calls : List Call) :
    ∀ t : Tracker buckets records, (t.run calls).1.thresholds = adjusted t.thresholds calls := by
  induction calls with
  | nil => exact fun t => rfl
  | cons call calls ih =>
    intro t
    exact (ih (t.call call).1).trans (by rw [thresholds_call]; rfl)

/-- The spans among the thresholds never move. -/
theorem exists_adjusted_eq (calls : List Call) :
    ∀ limits, ∃ minRssi, adjusted limits calls = { limits with minRssi } := by
  induction calls with
  | nil => exact fun limits => ⟨limits.minRssi, rfl⟩
  | cons call calls ih =>
    intro limits
    obtain ⟨minRssi, hrest⟩ := ih (call.adjust limits)
    refine ⟨minRssi, hrest.trans ?_⟩
    cases call <;> rfl

/-! ## Entries -/

/-- Something that a tracker is asked to do, the time apart. -/
inductive Act where
  | receive (id : NodeId) (rssi : Int16)
  | sweep
  | setMinRssi (minRssi : Int16)
  deriving DecidableEq, Repr

/-- Something that a tracker is asked to do in a second. -/
structure Entry where
  second : Nat
  act : Act
  deriving DecidableEq, Repr

namespace Entry

/-- The reading of the clock at an entry. -/
def tick (e : Entry) : Tick :=
  UInt32.ofNat e.second

/-- The call that is made at an entry. -/
def call (e : Entry) : Call :=
  match e.act with
  | .receive id rssi => .receive id rssi e.tick
  | .sweep => .sweep e.tick
  | .setMinRssi minRssi => .setMinRssi minRssi

/-- The entry is a sweep. -/
def isSweep (e : Entry) : Bool :=
  match e.act with
  | .sweep => true
  | .receive .. | .setMinRssi _ => false

end Entry

/-- The calls that are made over a diary. -/
def calls (diary : List Entry) : List Call :=
  diary.map Entry.call

/-- The seconds in which the peer `id` is heard, if the thresholds are `limits` at first. -/
def hearings (id : NodeId) (limits : Thresholds) : List Entry → List Nat
  | [] => []
  | e :: diary =>
    (if e.call.hears limits id then [e.second] else []) ++
      hearings id (e.call.adjust limits) diary

/-- The seconds in which there is a sweep. -/
def sweeps (diary : List Entry) : List Nat :=
  (diary.filter Entry.isSweep).map Entry.second

theorem calls_append (diary later : List Entry) :
    calls (diary ++ later) = calls diary ++ calls later :=
  List.map_append

theorem hearings_append (id : NodeId) (diary later : List Entry) :
    ∀ limits, hearings id limits (diary ++ later) =
      hearings id limits diary ++ hearings id (adjusted limits (calls diary)) later := by
  induction diary with
  | nil => exact fun limits => rfl
  | cons e diary ih =>
    intro limits
    rw [List.cons_append, hearings, hearings, ih, List.append_assoc]
    rfl

theorem sweeps_append (diary later : List Entry) :
    sweeps (diary ++ later) = sweeps diary ++ sweeps later := by
  rw [sweeps, List.filter_append, List.map_append]
  rfl

theorem exists_of_mem_hearings {id : NodeId} {diary : List Entry} {second : Nat} :
    ∀ {limits : Thresholds}, second ∈ hearings id limits diary → ∃ e ∈ diary, e.second = second := by
  induction diary with
  | nil => exact fun h => absurd h List.not_mem_nil
  | cons e diary ih =>
    intro limits h
    rcases List.mem_append.mp h with hfirst | hrest
    · have hsecond : second ∈ [e.second] := by
        split at hfirst
        · exact hfirst
        · exact absurd hfirst List.not_mem_nil
      exact ⟨e, List.mem_cons_self, (List.mem_singleton.mp hsecond).symm⟩
    · obtain ⟨e', he', heq⟩ := ih hrest
      exact ⟨e', List.mem_cons_of_mem e he', heq⟩

theorem exists_of_mem_sweeps {diary : List Entry} {second : Nat} (h : second ∈ sweeps diary) :
    ∃ e ∈ diary, e.second = second := by
  obtain ⟨e, he, heq⟩ := List.mem_map.mp h
  exact ⟨e, (List.mem_filter.mp he).1, heq⟩

/-! ## Regular diaries -/

/-- A diary that is kept in order, over less than half the range of the clock. -/
structure InOrder (diary : List Entry) : Prop where
  ordered : diary.Pairwise fun e e' => e.second ≤ e'.second
  within : ∀ e ∈ diary, ∀ e' ∈ diary, e'.second < e.second + 2 ^ 31

/-- A diary in order in which every `period` seconds on end that lie between two entries have a
sweep. -/
structure Regular (diary : List Entry) (period : Nat) : Prop extends InOrder diary where
  exists_sweep : ∀ e ∈ diary, ∀ e' ∈ diary, ∀ s, e.second < s → s + period ≤ e'.second →
    ∃ z ∈ sweeps diary, s ≤ z ∧ z < s + period

variable {before after : List Entry} {now : Entry} {period : Nat}

namespace InOrder

theorem left (h : InOrder (before ++ after)) : InOrder before where
  ordered := (List.pairwise_append.mp h.ordered).1
  within e he e' he' := h.within e (List.mem_append_left _ he) e' (List.mem_append_left _ he')

/-- What was entered before an entry was entered no later, and not too long ago. -/
theorem before_le (h : InOrder (before ++ now :: after)) {e : Entry} (he : e ∈ before) :
    e.second ≤ now.second ∧ now.second < e.second + 2 ^ 31 := by
  have hle := (List.pairwise_append.mp h.ordered).2.2 e he now List.mem_cons_self
  exact ⟨hle, h.within e (List.mem_append_left _ he) now
    (List.mem_append_right _ List.mem_cons_self)⟩

/-- What is entered from an entry on is entered no earlier. -/
theorem le_after (h : InOrder (before ++ now :: after)) {e : Entry} (he : e ∈ now :: after) :
    now.second ≤ e.second := by
  rcases List.mem_cons.mp he with rfl | hafter
  · exact Nat.le_refl _
  · have hordered := (List.pairwise_append.mp h.ordered).2.1
    exact (List.pairwise_cons.mp hordered).1 e hafter

end InOrder

/-- Seconds on end that lie between two entries, the latter of them no later than `now`, have a
sweep before `now`. -/
theorem Regular.exists_sweep_before (h : Regular (before ++ now :: after) period) {e : Entry}
    (he : e ∈ before ++ now :: after) {s : Nat} (hs : e.second < s)
    (hnow : s + period ≤ now.second) : ∃ z ∈ sweeps before, s ≤ z ∧ z < s + period := by
  obtain ⟨z, hz, hle, hlt⟩ := h.exists_sweep e he now
    (List.mem_append_right _ List.mem_cons_self) s hs hnow
  rw [sweeps_append] at hz
  rcases List.mem_append.mp hz with hbefore | hlater
  · exact ⟨z, hbefore, hle, hlt⟩
  · -- A sweep from `now` on comes too late.
    obtain ⟨e', he', rfl⟩ := exists_of_mem_sweeps hlater
    have hlate := h.le_after he'
    omega

end Tracker

end PeerBeacon
