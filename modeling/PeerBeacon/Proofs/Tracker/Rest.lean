import PeerBeacon.Proofs.Tracker.Vigil
import PeerBeacon.Settings.Fault

/-!
# Trackers at rest

A sweep that finds nothing due changes nothing: neither a record nor a place in the index, nor the
order of the free places (`Tracker.sweep_of_unchanged`).  A tracker is at rest at a reading of the
clock if a sweep at that reading finds nothing due.

Every sweep brings a tracker to rest (`Census.Step.atRest`), and for as long as the clock does not
move it stays so, whatever is received and however the signal threshold is moved
(`Census.Current.atRest`): a peer that is heard is heard now, and has not been silent yet.  Two
things are needed for that.  No silence of zero seconds may count (`Thresholds.Lenient`), and no
peer may have been heard ahead of the clock, since such a reception goes on being the latest one
(`Census.Current`).
-/

namespace PeerBeacon

/-! ## Sweeps that find nothing due -/

namespace Roster

variable {buckets records : Nat}

/-- A fold of edits that change nothing changes nothing. -/
theorem foldl_overwrite_eq_self (f : Record → Record) (arena : Vector Record records) :
    ∀ l : List (Entry records × Nat),
      (∀ p ∈ l, f (arena.get p.1.handle) = arena.get p.1.handle) →
        l.foldl (fun a p => overwrite a p.1.handle (f (a.get p.1.handle))) arena = arena := by
  intro l
  induction l with
  | nil => exact fun _ => rfl
  | cons p l ih =>
    intro hkeep
    have hsame : overwrite arena p.1.handle (f (arena.get p.1.handle)) = arena := by
      rw [hkeep p List.mem_cons_self]
      exact Vector.set_getElem_self p.1.handle.isLt
    rw [List.foldl_cons, hsame]
    exact ih fun q hq => hkeep q (List.mem_cons_of_mem p hq)

/-- An edit that keeps every record in use changes nothing. -/
theorem map_eq_self {t : Roster buckets records} {f : Record → Record}
    (h : ∀ r ∈ t.tracked, f r = r) : t.map f = t := by
  have harena : (t.map f).arena = t.arena := by
    refine foldl_overwrite_eq_self f t.arena t.entries.zipIdx fun p hp => ?_
    exact h _ (List.mem_map_of_mem (List.fst_mem_of_mem_zipIdx hp))
  exact congrArg (fun arena => { t with arena }) harena

end Roster

/-- A sweep that finds nothing due changes nothing and says nothing. -/
theorem Tracker.sweep_of_unchanged {buckets records : Nat} {t : Tracker buckets records}
    {now : Tick} (h : ∀ r ∈ t.roster.tracked, r.aging t.thresholds now = .unchanged) :
    t.sweep now = { state := t, answer := [] } := by
  have hnone : ∀ {α : Type} (f : NodeId × Aging → Option α), (∀ id, f (id, .unchanged) = none) →
      (t.agings now).filterMap f = [] := by
    intro α f hf
    refine List.filterMap_eq_nil_iff.mpr fun found hfound => ?_
    obtain ⟨r, hr, rfl⟩ := List.mem_map.mp hfound
    rw [h r hr, hf]
  have hexpired : t.expired now = [] := by
    rw [expired, hnone _ fun _ => rfl, List.take_nil]
  have hevents : t.dueEvents now = [] := by
    rw [dueEvents, hnone _ fun _ => rfl, List.take_nil]
  have hroster : t.roster.map (Record.aged t.thresholds now) = t.roster :=
    Roster.map_eq_self fun r hr => by rw [Record.aged, h r hr]
  rw [sweep, hexpired, hevents, hroster, hnone _ fun _ => rfl]
  rfl

/-! ## Peers at rest -/

/-- Thresholds by which a peer that is heard in a second stays as it is for the rest of it. -/
structure Thresholds.Lenient (limits : Thresholds) : Prop where
  shortTimeout_ne : limits.shortTimeout ≠ 0
  leaveGrace_ne : limits.leaveGrace ≠ 0
  absentAfter_ne : limits.absentAfter ≠ 0

/-- Thresholds that are accepted are lenient if the leave grace is. -/
theorem Thresholds.lenient_of_check {limits : Thresholds} (valid : limits.check = .ok ())
    (graceful : limits.leaveGrace ≠ 0) : limits.Lenient := by
  obtain ⟨htimeout, hgrace⟩ := (check_eq_ok_iff limits).mp valid
  refine ⟨htimeout, graceful, fun habsent => graceful ?_⟩
  rw [habsent] at hgrace
  exact UInt32.le_zero_iff.mp hgrace

/-- The signal threshold plays no part. -/
theorem Thresholds.Lenient.adjust {limits : Thresholds} (h : limits.Lenient)
    (call : Tracker.Call) : (call.adjust limits).Lenient := by
  cases call with
  | receive id rssi heard => exact h
  | sweep now => exact h
  | setMinRssi minRssi => exact ⟨h.shortTimeout_ne, h.leaveGrace_ne, h.absentAfter_ne⟩

namespace Peer

variable {limits : Thresholds} {now : Tick} {p q : Peer}

theorem age_adjust (call : Tracker.Call) (limits : Thresholds) (now : Tick) (p : Peer) :
    p.age (call.adjust limits) now = p.age limits now := by
  cases call <;> rfl

/-- Nothing is due for a peer of which a sweep leaves everything. -/
theorem aging_record_of_age (h : p.age limits now = some p) (id : NodeId) :
    (p.record id).aging limits now = .unchanged := by
  cases p with
  | nearing first last =>
    rw [age] at h
    simp only [Record.aging, record]
    split_ifs at h ⊢
    rfl
  | present last detectedAt =>
    rw [age] at h
    simp only [Record.aging, record]
    split_ifs at h ⊢
    · cases h
    · rfl
  | leaving quietSince last detectedAt =>
    rw [age] at h
    simp only [Record.aging, record]
    split_ifs at h ⊢
    rfl

/-- What a sweep leaves of a peer it would leave again. -/
theorem age_age (h : p.age limits now = some q) : q.age limits now = some q := by
  cases p with
  | nearing first last =>
    rw [age] at h
    split_ifs at h with hfaded
    cases h
    exact if_neg hfaded
  | present last detectedAt =>
    rw [age] at h
    split_ifs at h with habsent hquiet <;> cases h
    · exact if_neg habsent
    · rw [age, if_neg habsent, if_neg hquiet]
  | leaving quietSince last detectedAt =>
    rw [age] at h
    split_ifs at h with habsent
    cases h
    exact if_neg habsent

/-- A sweep leaves everything of a peer that was heard just now. -/
theorem age_of_last_eq (hlenient : limits.Lenient) (h : p.last = now) :
    p.age limits now = some p := by
  have hlong : ∀ limit : UInt32, limit ≠ 0 → ¬limit ≤ Tick.elapsed now now := by
    intro limit hne hle
    rw [Tick.elapsed_self] at hle
    exact hne (UInt32.le_zero_iff.mp hle)
  subst h
  cases p with
  | nearing first last => exact if_neg (hlong _ hlenient.shortTimeout_ne)
  | present last detectedAt =>
    exact (if_neg (hlong _ hlenient.absentAfter_ne)).trans
      (if_neg (hlong _ hlenient.leaveGrace_ne))
  | leaving quietSince last detectedAt => exact if_neg (hlong _ hlenient.absentAfter_ne)

/-- What is left of a peer after an incident is the peer itself, or was heard just now, or is left
by a sweep. -/
theorem Incident.result {second : Nat} {id : NodeId} {heard swept : List Nat}
    {p? q? : Option Peer} {events : List Event}
    (h : Incident limits id second heard swept p? events q?)
    (hlater : ∀ p ∈ p?, later p.last (UInt32.ofNat second) = UInt32.ofNat second) :
    ∀ q ∈ q?, q ∈ p? ∨ q.last = UInt32.ofNat second ∨
      ∃ p ∈ p?, p.age limits (UInt32.ofNat second) = some q := by
  intro q hq
  cases h with
  | pass => exact .inl hq
  | refuse => cases hq
  | hear =>
    obtain rfl := Option.some.inj hq
    refine .inr (.inl ?_)
    rw [last_hear]
    cases p? with
    | none => exact if_pos (Tick.elapsed_self _)
    | some p => exact hlater p rfl
  | age =>
    obtain ⟨p, hp, hage⟩ := Option.bind_eq_some_iff.mp hq
    exact .inr (.inr ⟨p, hp, hage⟩)

end Peer

/-! ## Censuses at rest -/

namespace Census

/-- A sweep at `now` would find nothing due. -/
def AtRest (c : Census) (now : Tick) : Prop :=
  ∀ id, ∀ p ∈ c.peers.get? id, p.age c.thresholds now = some p

/-- The thresholds are lenient, and every peer was last heard between the seconds `first` and
`now`. -/
structure Current (first now : Nat) (c : Census) : Prop where
  lenient : c.thresholds.Lenient
  first_le : first ≤ now
  heard : ∀ id, ∀ p ∈ c.peers.get? id, ∃ s, p.last = UInt32.ofNat s ∧ first ≤ s ∧ s ≤ now

theorem Current.start {limits : Thresholds} (h : limits.Lenient) (now : Nat) :
    (start limits).Current now now where
  lenient := h
  first_le := Nat.le_refl now
  heard _ _ hp := nomatch hp

/-- The clock moves on. -/
theorem Current.mono {first earlier now : Nat} {c : Census} (h : c.Current first earlier)
    (hle : earlier ≤ now) : c.Current first now where
  lenient := h.lenient
  first_le := h.first_le.trans hle
  heard id p hp := by
    obtain ⟨s, hlast, hfirst, hs⟩ := h.heard id p hp
    exact ⟨s, hlast, hfirst, hs.trans hle⟩

variable {capacity : Nat} {c d : Census} {events : List Event}

theorem Step.thresholds_eq {call : Tracker.Call} (h : Step capacity c call events d) :
    d.thresholds = call.adjust c.thresholds := by
  cases h <;> rfl

/-- A sweep brings a census to rest. -/
theorem Step.atRest {now : Tick} (h : Step capacity c (.sweep now) events d) : d.AtRest now := by
  intro id q hq
  rw [(h.turn id).eq_of_sweep.2] at hq
  obtain ⟨p, hp, hage⟩ := Option.bind_eq_some_iff.mp hq
  rw [h.thresholds_eq]
  exact Peer.age_age hage

section Entries

open Tracker

variable {first : Nat} {e : Entry} (current : c.Current first e.second)
  (h : Step capacity c e.call events d) (hlt : e.second < first + 2 ^ 31)
include current h hlt

/-- A peer that is known after an entry was known before, or was heard just now, or is what a sweep
has left. -/
theorem Current.result (id : NodeId) :
    ∀ q ∈ d.peers.get? id, q ∈ c.peers.get? id ∨ q.last = e.tick ∨
      ∃ p ∈ c.peers.get? id, p.age c.thresholds e.tick = some q := by
  refine (h.turn id).incident.result fun p hp => ?_
  obtain ⟨s, hlast, hfirst, hs⟩ := current.heard id p hp
  rw [hlast]
  exact Tick.latest_ofNat hs (by omega)

/-- An entry keeps a census current. -/
theorem Current.step : d.Current first e.second where
  lenient := h.thresholds_eq ▸ current.lenient.adjust e.call
  first_le := current.first_le
  heard id q hq := by
    rcases current.result h hlt id q hq with hkept | hnow | ⟨p, hp, hage⟩
    · exact current.heard id q hkept
    · exact ⟨e.second, hnow, current.first_le, Nat.le_refl _⟩
    · rw [Peer.last_of_age hage]
      exact current.heard id p hp

/-- A census at rest stays at rest. -/
theorem Current.atRest (rest : c.AtRest e.tick) : d.AtRest e.tick := by
  intro id q hq
  rw [h.thresholds_eq, Peer.age_adjust]
  rcases current.result h hlt id q hq with hkept | hnow | ⟨p, hp, hage⟩
  · exact rest id q hkept
  · exact Peer.age_of_last_eq current.lenient hnow
  · exact Peer.age_age hage

end Entries

end Census

namespace Tracker

variable {buckets records : Nat} {t : Tracker buckets records} {c : Census}

/-- A sweep of a tracker at rest changes nothing and says nothing. -/
theorem Mirrors.sweep_of_atRest (h : t.Mirrors c) {now : Tick} (rest : c.AtRest now) :
    t.sweep now = { state := t, answer := [] } := by
  refine sweep_of_unchanged fun r hr => ?_
  rw [h.holds.tracked_eq] at hr
  obtain ⟨id, -, hid⟩ := List.mem_filterMap.mp hr
  obtain ⟨p, hp, rfl⟩ := Option.map_eq_some_iff.mp hid
  rw [h.thresholds_eq]
  exact Peer.aging_record_of_age (rest id p hp) id

end Tracker

end PeerBeacon
