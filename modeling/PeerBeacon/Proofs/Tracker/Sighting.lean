import PeerBeacon.Proofs.Seconds
import PeerBeacon.Proofs.Tracker.Peer

/-!
# Sighting a peer in slots

A peer that is heard in some slots, and often enough, is first nearing and then present, and is
reported once.  `Sighting` says what is known of such a peer, and what has been reported, when it
was first heard in one slot and last heard in another.  Hearing it again keeps the sighting going
(`Sighting.hear`), and a sweep does not see it as long as the silence is short
(`Sighting.quiet`).

`Progress` adds which slots these were, out of the slots in which the peer could be heard.  As every
window of a fixed length has such a slot, the silence is never long, and the peer is reported within
a span that the thresholds determine (`Progress.detected`).
-/

namespace PeerBeacon

variable {micros : Nat} {limits : Thresholds} {id : NodeId} {first last now : Nat}

/-- What is known of a peer, and has been reported of it, after it was heard in slot `first`, and
for the last time so far in slot `last`. -/
inductive Sighting (micros : Nat) (limits : Thresholds) (id : NodeId) (first last : Nat) :
    Peer → List Event → Prop where
  /-- Not yet for long enough. -/
  | nearing
      (short : slotSeconds micros last < slotSeconds micros first + limits.detectAfter.toNat) :
      Sighting micros limits id first last
        (.nearing (slotTick micros first) (slotTick micros last)) []
  /-- For long enough, and reported since. -/
  | present (detectedAt : Tick) :
      Sighting micros limits id first last
        (.present (slotTick micros last) detectedAt) [.detect id (slotTick micros first)]

/-- A reception in a later slot is the latest one. -/
theorem later_slotTick (hle : last ≤ now)
    (hlt : slotSeconds micros now < slotSeconds micros last + 2 ^ 31) :
    Peer.later (slotTick micros last) (slotTick micros now) = slotTick micros now := by
  rw [← Peer.latest_some]
  exact Tick.latest_ofNat (slotSeconds_mono micros hle) hlt

namespace Sighting

/-- A nearing peer that is heard again is present as soon as the time since it was first heard is
long enough. -/
theorem hear_nearing (hle : last ≤ now) (hfirst : first ≤ last)
    (hlt : slotSeconds micros now < slotSeconds micros first + 2 ^ 31) :
    Sighting micros limits id first now
      ((Peer.nearing (slotTick micros first) (slotTick micros last)).hear limits.detectAfter
        (slotTick micros now))
      ((Peer.nearing (slotTick micros first) (slotTick micros last)).hearEvent limits.detectAfter
        (slotTick micros now) id).toList := by
  have hmono := slotSeconds_mono micros hfirst
  have hlater : Peer.later (slotTick micros last) (slotTick micros now) = slotTick micros now :=
    later_slotTick hle (by omega)
  have helapsed := toNat_elapsed_slotTick (Nat.le_trans hfirst hle) hlt
  rw [Peer.hear, Peer.hearEvent, hlater]
  by_cases hlong :
      limits.detectAfter ≤ Tick.elapsed (slotTick micros now) (slotTick micros first)
  · rw [if_pos hlong, if_pos hlong]
    exact .present _
  · rw [if_neg hlong, if_neg hlong]
    rw [UInt32.not_le, UInt32.lt_iff_toNat_lt, helapsed] at hlong
    exact .nearing (by omega)

/-- A peer that is heard for the first time. -/
theorem meet (now : Nat) :
    Sighting micros limits id now now
      ((Peer.nearing (slotTick micros now) (slotTick micros now)).hear limits.detectAfter
        (slotTick micros now))
      ((Peer.nearing (slotTick micros now) (slotTick micros now)).hearEvent limits.detectAfter
        (slotTick micros now) id).toList :=
  hear_nearing (Nat.le_refl now) (Nat.le_refl now) (by omega)

/-- A peer that is heard again after a short silence. -/
theorem hear {p : Peer} {events : List Event} (h : Sighting micros limits id first last p events)
    (hfirst : first ≤ last) (hle : last ≤ now) {span : Nat}
    (hgap : slotSeconds micros now ≤ slotSeconds micros last + span)
    (hrange : limits.detectAfter.toNat + span < 2 ^ 31) :
    Sighting micros limits id first now (p.hear limits.detectAfter (slotTick micros now))
      (events ++ (p.hearEvent limits.detectAfter (slotTick micros now) id).toList) := by
  cases h with
  | nearing short => exact hear_nearing hle hfirst (by omega)
  | present detectedAt =>
    have hlater : Peer.later (slotTick micros last) (slotTick micros now) = slotTick micros now :=
      later_slotTick hle (by omega)
    rw [Peer.hear, hlater]
    exact .present detectedAt

/-- A sweep after a short silence leaves the peer as it is and reports nothing. -/
theorem quiet {p : Peer} {events : List Event} (h : Sighting micros limits id first last p events)
    (hle : last ≤ now) {span : Nat}
    (hgap : slotSeconds micros now ≤ slotSeconds micros last + span) (hhalf : span < 2 ^ 31)
    (hshort : span < limits.shortTimeout.toNat) (hgrace : span < limits.leaveGrace.toNat)
    (habsent : limits.leaveGrace ≤ limits.absentAfter) :
    p.age limits (slotTick micros now) = some p ∧ p.due limits (slotTick micros now) id = none := by
  have hsilent : (Tick.elapsed (slotTick micros now) (slotTick micros last)).toNat ≤ span := by
    rw [toNat_elapsed_slotTick hle (by omega)]
    omega
  have hnotShort :
      ¬limits.shortTimeout ≤ Tick.elapsed (slotTick micros now) (slotTick micros last) := by
    rw [UInt32.le_iff_toNat_le]
    omega
  have hnotGrace :
      ¬limits.leaveGrace ≤ Tick.elapsed (slotTick micros now) (slotTick micros last) := by
    rw [UInt32.le_iff_toNat_le]
    omega
  have hnotAbsent :
      ¬limits.absentAfter ≤ Tick.elapsed (slotTick micros now) (slotTick micros last) :=
    fun habsentee => hnotGrace (UInt32.le_trans habsent habsentee)
  cases h with
  | nearing short => exact ⟨if_neg hnotShort, rfl⟩
  | present detectedAt =>
    rw [Peer.age, Peer.due, if_neg hnotAbsent, if_neg hnotAbsent, if_neg hnotGrace,
      if_neg hnotGrace]
    exact ⟨rfl, rfl⟩

end Sighting

/-! ## Progress through the slots -/

variable {shared : Nat → Bool} {slots span n : Nat}

/-- What is known of a peer, and has been reported of it, after `n` slots of which it was heard in
those that are shared. -/
inductive Progress (micros : Nat) (limits : Thresholds) (id : NodeId) (shared : Nat → Bool)
    (n : Nat) : Option Peer → List Event → Prop where
  /-- There was no shared slot yet. -/
  | unmet (none_shared : ∀ j < n, shared j = false) : Progress micros limits id shared n none []
  /-- The first shared slot was `first`, and the last one so far is `last`. -/
  | met {first last : Nat} {p : Peer} {events : List Event}
      (none_before : ∀ j < first, shared j = false) (first_le : first ≤ last) (last_lt : last < n)
      (none_since : ∀ j, last < j → j < n → shared j = false)
      (sighting : Sighting micros limits id first last p events) :
      Progress micros limits id shared n (some p) events

/-- Slots are shared often enough: a window that is sure to have a shared slot passes in a time that
no timeout measures, and the readings of the clock until a peer is reported can be compared. -/
structure Frequent (micros : Nat) (limits : Thresholds) (shared : Nat → Bool)
    (slots span : Nat) : Prop where
  exists_shared : ∀ w, ∃ k < slots, shared (w + k) = true
  fits : slots * micros ≤ span * 1000000
  lt_shortTimeout : span < limits.shortTimeout.toNat
  lt_leaveGrace : span < limits.leaveGrace.toNat
  leaveGrace_le : limits.leaveGrace ≤ limits.absentAfter
  range : limits.detectAfter.toNat + 2 * limits.shortTimeout.toNat < 2 ^ 31

namespace Frequent

variable (h : Frequent micros limits shared slots span)
include h

/-- Slots that are not shared are fewer than a window. -/
theorem lt_of_none_shared {w : Nat} (hnone : ∀ j, w ≤ j → j < n → shared j = false) :
    n < w + slots := by
  obtain ⟨k, hk, hyes⟩ := h.exists_shared w
  by_cases hlt : w + k < n
  · rw [hnone (w + k) (Nat.le_add_right w k) hlt] at hyes
    cases hyes
  · omega

/-- Before the first shared slot the clock comes no further than the span of a window. -/
theorem slotSeconds_first_le (hnone : ∀ j < n, shared j = false) :
    slotSeconds micros n ≤ span := by
  have hlt := h.lt_of_none_shared (w := 0) fun j _ hj => hnone j hj
  have hle := slotSeconds_le_of_le_add (i := 0) h.fits (Nat.le_of_lt hlt)
  rwa [slotSeconds_zero, Nat.zero_add] at hle

/-- Since the last shared slot the clock has gone on by no more than the span of a window. -/
theorem slotSeconds_since_le {last : Nat} (hnone : ∀ j, last < j → j < n → shared j = false) :
    slotSeconds micros n ≤ slotSeconds micros last + span := by
  have hlt := h.lt_of_none_shared (w := last + 1) hnone
  exact slotSeconds_le_of_le_add h.fits (by omega)

/-- The first slot that begins at a given second or later is the first one that the clock shows to
do so. -/
theorem exists_first_slotTick (hmicros : 0 < micros) {bound : Nat} (hbound : bound < 2 ^ 31) :
    ∃ j, (∀ i < j, (slotTick micros i).toNat < bound) ∧ bound ≤ (slotTick micros j).toNat ∧
      bound ≤ slotSeconds micros j := by
  obtain ⟨j, hdue, hbefore⟩ := exists_first_slot hmicros bound
  obtain ⟨k, hk, -⟩ := h.exists_shared 0
  have hrange := h.range
  have hshort := h.lt_shortTimeout
  have hsmall : slotSeconds micros j < 2 ^ 32 := by
    cases j with
    | zero =>
      rw [slotSeconds_zero]
      decide
    | succ i =>
      have hlast := hbefore i (Nat.lt_succ_self i)
      have hstep : slotSeconds micros (i + 1) ≤ slotSeconds micros i + span :=
        slotSeconds_le_of_le_add h.fits (by omega)
      omega
  refine ⟨j, fun i hi => ?_, ?_, hdue⟩
  · have hlt := hbefore i hi
    rw [toNat_slotTick (by omega)]
    exact hlt
  · rw [toNat_slotTick hsmall]
    exact hdue

end Frequent

namespace Progress

variable {p? : Option Peer} {events : List Event}

theorem start : Progress micros limits id shared 0 none [] :=
  .unmet fun _ hj => absurd hj (Nat.not_lt_zero _)

/-- A sweep at the start of the next slot changes and reports nothing. -/
theorem quiet (h : Progress micros limits id shared n p? events)
    (hf : Frequent micros limits shared slots span) :
    p?.bind (Peer.age limits (slotTick micros n)) = p? ∧
      p?.bind (Peer.due limits (slotTick micros n) id) = none := by
  cases h with
  | unmet none_shared => exact ⟨rfl, rfl⟩
  | met none_before first_le last_lt none_since sighting =>
    have hrange := hf.range
    have hshort := hf.lt_shortTimeout
    exact sighting.quiet (Nat.le_of_lt last_lt) (hf.slotSeconds_since_le none_since) (by omega)
      hshort hf.lt_leaveGrace hf.leaveGrace_le

/-- A slot that is not shared leaves everything as it is. -/
theorem skip (h : Progress micros limits id shared n p? events) (hn : shared n = false) :
    Progress micros limits id shared (n + 1) p? events := by
  cases h with
  | unmet none_shared =>
    refine .unmet fun j hj => ?_
    rcases Nat.lt_succ_iff_lt_or_eq.mp hj with hlt | rfl
    · exact none_shared j hlt
    · exact hn
  | met none_before first_le last_lt none_since sighting =>
    refine .met none_before first_le (Nat.lt_succ_of_lt last_lt) (fun j hlast hj => ?_) sighting
    rcases Nat.lt_succ_iff_lt_or_eq.mp hj with hlt | rfl
    · exact none_since j hlast hlt
    · exact hn

/-- A sighting whose last slot is the one before `n + 1` slots have passed. -/
theorem of_sighting {p : Peer} (none_before : ∀ j < first, shared j = false) (hle : first ≤ n)
    (sighting : Sighting micros limits id first n p events) :
    Progress micros limits id shared (n + 1) (some p) events :=
  .met none_before hle (Nat.lt_succ_self n) (fun j hlast hj => by omega) sighting

/-- The peer is heard in a shared slot. -/
theorem hear (h : Progress micros limits id shared n p? events)
    (hf : Frequent micros limits shared slots span) :
    Progress micros limits id shared (n + 1)
      (some ((p?.getD (.nearing (slotTick micros n) (slotTick micros n))).hear limits.detectAfter
        (slotTick micros n)))
      (events ++ ((p?.getD (.nearing (slotTick micros n) (slotTick micros n))).hearEvent
        limits.detectAfter (slotTick micros n) id).toList) := by
  cases h with
  | unmet none_shared => exact of_sighting none_shared (Nat.le_refl n) (Sighting.meet n)
  | met none_before first_le last_lt none_since sighting =>
    have hrange := hf.range
    have hshort := hf.lt_shortTimeout
    exact of_sighting none_before (Nat.le_trans first_le (Nat.le_of_lt last_lt))
      (sighting.hear first_le (Nat.le_of_lt last_lt) (hf.slotSeconds_since_le none_since)
        (by omega))

/-- The peer is heard once more in a shared slot. -/
theorem hear_again {p : Peer} (h : Progress micros limits id shared (n + 1) (some p) events)
    (hf : Frequent micros limits shared slots span) (hn : shared n = true) :
    Progress micros limits id shared (n + 1)
      (some (p.hear limits.detectAfter (slotTick micros n)))
      (events ++ (p.hearEvent limits.detectAfter (slotTick micros n) id).toList) := by
  cases h with
  | @met first last _ _ none_before first_le last_lt none_since sighting =>
    -- The slot is shared, so it is the last one in which the peer was heard.
    have hlast : last = n := by
      rcases Nat.lt_succ_iff_lt_or_eq.mp last_lt with hlt | heq
      · rw [none_since n hlt (Nat.lt_succ_self n)] at hn
        cases hn
      · exact heq
    subst hlast
    have hrange := hf.range
    exact of_sighting none_before first_le
      (sighting.hear first_le (Nat.le_refl last) (Nat.le_add_right _ 0) (by omega))

/-- Nothing but a detection is ever reported, and that once. -/
theorem events_cases (h : Progress micros limits id shared n p? events) :
    events = [] ∨ ∃ since, events = [.detect id since] := by
  cases h with
  | unmet none_shared => exact .inl rfl
  | met none_before first_le last_lt none_since sighting =>
    cases sighting with
    | nearing short => exact .inl rfl
    | present detectedAt => exact .inr ⟨_, rfl⟩

/-- Once the span until the detection, and two windows more, have passed, the peer is reported. -/
theorem detected (h : Progress micros limits id shared n p? events)
    (hf : Frequent micros limits shared slots span) {j : Nat} (hj : j < n)
    (hdue : limits.detectAfter.toNat + 2 * limits.shortTimeout.toNat ≤ slotSeconds micros j) :
    ∃ since, events = [.detect id since] := by
  have hshort := hf.lt_shortTimeout
  have hmono := slotSeconds_mono micros (Nat.le_of_lt hj)
  cases h with
  | unmet none_shared =>
    have hfirst := hf.slotSeconds_first_le none_shared
    omega
  | met none_before first_le last_lt none_since sighting =>
    cases sighting with
    | nearing short =>
      have hfirst := hf.slotSeconds_first_le none_before
      have hsince := hf.slotSeconds_since_le none_since
      omega
    | present detectedAt => exact ⟨_, rfl⟩

end Progress

end PeerBeacon
