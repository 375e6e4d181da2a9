import PeerBeacon.Proofs.Tracker.View

/-!
# Fields in step with the phase

A record is plain data: nothing in its type keeps a peer from being present without ever having been
detected, or from being known without ever having been heard.  So whoever reads a record has to say
what is done with such a one.  A sweep gives up a record that has no reading or no phase yet, and
counts the dwell of a peer that was never detected as zero.

None of this ever happens (`Tracker.run_inStep`).  Most of it is a matter of types: the records of a
tracker stand for peers, and a `Peer` has no room for other combinations of fields.  What its type
does not say is that a peer is nearing only as long as it was not heard for long enough
(`Peer.Prompt`).  A reception settles that anew, whatever was the case before, and nothing else
moves a reading of a peer that is nearing.
-/

namespace PeerBeacon

/-! ## Records in step -/

namespace Record

/-- The fields of a record are in step with its phase: it was heard, and the readings that go with
the phase are set, and no others. -/
structure InStep (detectAfter : UInt32) (r : Record) : Prop where
  heard : r.lastHeard.isSome = true
  classified : r.phase ≠ .unseen
  nearing : r.phase = .nearing → r.detectedAt = none ∧
    ∃ first last, r.windowStart = some first ∧ r.lastHeard = some last ∧
      Tick.elapsed last first < detectAfter
  present : r.phase = .present → r.windowStart = none ∧ r.detectedAt.isSome = true
  leaving : r.phase = .leaving → r.windowStart.isSome = true ∧ r.detectedAt.isSome = true

/-- What makes a sweep give up a record as claimed but never heard. -/
theorem aging_eq_unclassified_iff {limits : Thresholds} {now : Tick} {r : Record} :
    r.aging limits now = .unclassified ↔ r.lastHeard = none ∨ r.phase = .unseen := by
  unfold aging
  cases r.lastHeard with
  | none => exact iff_of_true rfl (.inl rfl)
  | some last =>
    cases r.phase with
    | unseen => exact iff_of_true rfl (.inr rfl)
    | nearing | present | leaving =>
      refine iff_of_false ?_ (not_or.mpr ⟨nofun, nofun⟩)
      dsimp only
      split_ifs <;> exact nofun

namespace InStep

variable {detectAfter : UInt32} {limits : Thresholds} {now : Tick} {r : Record}

/-- A detected peer was detected at some time. -/
theorem exists_detectedAt (h : r.InStep detectAfter) (hdetected : r.isDetected = true) :
    ∃ detected, r.detectedAt = some detected := by
  rw [← Option.isSome_iff_exists]
  rcases isDetected_eq_true_iff.mp hdetected with hpresent | hleaving
  · exact (h.present hpresent).2
  · exact (h.leaving hleaving).2

/-- No sweep takes the peer to be claimed but never heard. -/
theorem aging_ne_unclassified (h : r.InStep detectAfter) :
    r.aging limits now ≠ .unclassified := by
  rw [Ne, aging_eq_unclassified_iff, not_or]
  exact ⟨Option.isSome_iff_ne_none.mp h.heard, h.classified⟩

/-- The dwell that a sweep reports is the time from the detection of the peer to its last
reception. -/
theorem dwell_eq (h : r.InStep detectAfter) {since : Tick} {dwell : UInt32}
    (hgone : r.aging limits now = .gone since dwell) :
    r.lastHeard = some since ∧
      ∃ detected, r.detectedAt = some detected ∧ dwell = Tick.elapsed since detected := by
  obtain ⟨last, hlast⟩ := Option.isSome_iff_exists.mp h.heard
  have hfound : r.isDetected = true ∧ since = last ∧ dwell = r.dwell last := by
    unfold aging at hgone
    rw [hlast] at hgone
    dsimp only at hgone
    split at hgone
    · cases hgone
    · split_ifs at hgone
    · next hpresent =>
      split_ifs at hgone
      cases hgone
      exact ⟨isDetected_eq_true_iff.mpr (.inl hpresent), rfl, rfl⟩
    · next hleaving =>
      split_ifs at hgone
      cases hgone
      exact ⟨isDetected_eq_true_iff.mpr (.inr hleaving), rfl, rfl⟩
  obtain ⟨hdetected, rfl, rfl⟩ := hfound
  obtain ⟨detected, hset⟩ := h.exists_detectedAt hdetected
  refine ⟨hlast, detected, hset, ?_⟩
  rw [Record.dwell, hset]

end InStep

end Record

/-! ## Peers that are detected in time -/

namespace Peer

variable {limits : Thresholds} {detectAfter : UInt32} {id : NodeId} {p q : Peer}

/-- A peer that is nearing was not heard for long enough. -/
def Prompt (detectAfter : UInt32) : Peer → Prop
  | nearing first last => Tick.elapsed last first < detectAfter
  | present .. | leaving .. => True

/-- The record of such a peer is in step. -/
theorem Prompt.inStep_record (h : p.Prompt detectAfter) (id : NodeId) :
    (p.record id).InStep detectAfter := by
  cases p with
  | nearing first last => exact ⟨rfl, nofun, fun _ => ⟨rfl, first, last, rfl, rfl, h⟩, nofun, nofun⟩
  | present last detectedAt => exact ⟨rfl, nofun, nofun, fun _ => ⟨rfl, rfl⟩, nofun⟩
  | leaving quietSince last detectedAt =>
    exact ⟨rfl, nofun, nofun, nofun, fun _ => ⟨rfl, rfl⟩⟩

/-- Whether a peer that is heard was heard for long enough is settled at once. -/
theorem prompt_hear (detectAfter : UInt32) (heard : Tick) (p : Peer) :
    (p.hear detectAfter heard).Prompt detectAfter := by
  cases p with
  | nearing first last =>
    rw [hear]
    split_ifs with hlong
    · exact trivial
    · exact UInt32.not_le.mp hlong
  | present last detectedAt => exact trivial
  | leaving quietSince last detectedAt => exact trivial

/-- A sweep moves no reading of a peer that is nearing, and makes no peer nearing. -/
theorem Prompt.age (h : p.Prompt detectAfter) {now : Tick} (hage : p.age limits now = some q) :
    q.Prompt detectAfter := by
  cases p with
  | nearing first last =>
    rw [Peer.age] at hage
    split_ifs at hage
    cases hage
    exact h
  | present last detectedAt =>
    rw [Peer.age] at hage
    split_ifs at hage <;> cases hage <;> exact trivial
  | leaving quietSince last detectedAt =>
    rw [Peer.age] at hage
    split_ifs at hage
    cases hage
    exact trivial

theorem Turn.prompt {call : Tracker.Call} {p? q? : Option Peer} {events : List Event}
    (h : Turn limits id call p? events q?) (hp : ∀ p ∈ p?, p.Prompt limits.detectAfter) :
    ∀ q ∈ q?, q.Prompt limits.detectAfter := by
  cases h with
  | pass => exact hp
  | refuse => exact hp
  | hear =>
    intro q hq
    obtain rfl := Option.some.inj hq
    exact prompt_hear limits.detectAfter _ _
  | age =>
    intro q hq
    obtain ⟨p, hmem, hage⟩ := Option.bind_eq_some_iff.mp hq
    exact (hp p hmem).age hage

end Peer

namespace Census

variable {capacity : Nat} {c d : Census} {call : Tracker.Call} {events : List Event}
  {detectAfter : UInt32}

/-- All peers of a census are detected in time, by the threshold that is given. -/
structure Prompt (detectAfter : UInt32) (c : Census) : Prop where
  detectAfter_eq : c.thresholds.detectAfter = detectAfter
  peers : ∀ id, ∀ p ∈ c.peers.get? id, p.Prompt detectAfter

/-- No step moves the span after which a peer is present. -/
theorem Step.detectAfter_eq (h : Step capacity c call events d) :
    d.thresholds.detectAfter = c.thresholds.detectAfter := by
  cases h <;> rfl

theorem Step.prompt (h : Step capacity c call events d) (hc : c.Prompt detectAfter) :
    d.Prompt detectAfter where
  detectAfter_eq := h.detectAfter_eq.trans hc.detectAfter_eq
  peers id := by
    have hbefore := hc.peers id
    rw [← hc.detectAfter_eq] at hbefore ⊢
    exact (h.turn id).prompt hbefore

theorem Run.prompt {calls : List Tracker.Call} {reports : List (List Event)}
    (h : Run capacity c calls reports d) (hc : c.Prompt detectAfter) : d.Prompt detectAfter := by
  induction h with
  | nil => exact hc
  | cons step rest ih => exact ih (step.prompt hc)

theorem Prompt.start (limits : Thresholds) : (start limits).Prompt limits.detectAfter where
  detectAfter_eq := rfl
  peers _ _ hp := absurd hp (Option.not_mem_none _)

end Census

/-! ## Records of a tracker -/

namespace Tracker

variable {buckets records : Nat} {t : Tracker buckets records} {c : Census} {detectAfter : UInt32}

/-- The record that an entry leads to is in step. -/
theorem Mirrors.inStep_of_mem (h : t.Mirrors c) (hc : c.Prompt detectAfter)
    {e : Roster.Entry records} (he : e ∈ t.roster.entries) :
    (t.roster.arena.get e.handle).InStep detectAfter := by
  have hget := h.holds.faithful.get?_key he
  rw [h.holds.get?_eq, Option.map_eq_some_iff] at hget
  obtain ⟨p, hp, hrecord⟩ := hget
  rw [← hrecord]
  exact (hc.peers e.key p hp).inStep_record e.key

/-- A sweep takes no peer to be claimed but never heard, and the dwell of a peer that is gone goes
back to its detection. -/
theorem Mirrors.classified_of_mem_agings (h : t.Mirrors c) (hc : c.Prompt detectAfter) {now : Tick}
    {id : NodeId} {aging : Aging} (hfound : (id, aging) ∈ t.agings now) :
    aging ≠ .unclassified ∧ ∀ since dwell, aging = .gone since dwell →
      ∃ r detected, t.roster.get? id = some r ∧ r.lastHeard = some since ∧
        r.detectedAt = some detected ∧ dwell = Tick.elapsed since detected := by
  obtain ⟨r, hr, heq⟩ := List.mem_map.mp hfound
  obtain ⟨e, he, rfl⟩ := List.mem_map.mp hr
  obtain ⟨rfl, rfl⟩ := Prod.mk.inj heq
  have hstep := h.inStep_of_mem hc he
  refine ⟨hstep.aging_ne_unclassified, fun since dwell hgone => ?_⟩
  obtain ⟨hlast, detected, hdetected, hdwell⟩ := hstep.dwell_eq hgone
  refine ⟨_, detected, ?_, hlast, hdetected, hdwell⟩
  rw [h.holds.faithful.owner e he]
  exact h.holds.faithful.get?_key he

/-- **Records stay in step.**  Whatever the thresholds and the readings of the clock, every bucket
in use leads to a record with its own key, which is not the reserved id, and the fields of the
record are in step with its phase.  Hence no sweep ever finds a peer that was claimed but never
heard, or reports the dwell of a peer that was never detected. -/
theorem run_inStep (buckets records : Nat) (limits : Thresholds) (calls : List Call) :
    let t := ((start buckets records limits).run calls).1
    (∀ e ∈ t.roster.entries,
      (t.roster.arena.get e.handle).id = e.key ∧
        (t.roster.arena.get e.handle).id ≠ NodeId.reserved ∧
        (t.roster.arena.get e.handle).InStep limits.detectAfter) ∧
    ∀ now, ∀ found ∈ t.agings now, found.2 ≠ .unclassified ∧
      ∀ since dwell, found.2 = .gone since dwell →
        ∃ r detected, t.roster.get? found.1 = some r ∧ r.lastHeard = some since ∧
          r.detectedAt = some detected ∧ dwell = Tick.elapsed since detected := by
  obtain ⟨c, hrun, hc⟩ := Mirrors.exists_run calls (Mirrors.start buckets records limits)
  have hprompt := hrun.prompt (Census.Prompt.start limits)
  intro t
  constructor
  · intro e he
    have howner := hc.holds.faithful.owner e he
    refine ⟨howner, ?_, hc.inStep_of_mem hprompt he⟩
    rw [howner]
    exact e.key_ne_reserved
  · intro now found hfound
    exact hc.classified_of_mem_agings hprompt hfound

end Tracker

end PeerBeacon
