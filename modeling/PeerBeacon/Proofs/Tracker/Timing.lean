import PeerBeacon.Settings.Fault
import PeerBeacon.Proofs.Tracker.Vigil

/-!
# Regular sweeps

Over a regular diary a silence of some length is sure to meet a sweep, so the vigil over a peer
gives bounds on its silences.  A peer is detected only after a run of receptions without long gaps
(`Tracker.run_detect_sustained`).  It is absent soon after it has been silent for long enough, and
if the grace ends early enough, it has left before (`Tracker.run_absent_timely`).

Both theorems speak of one event in the middle of a diary.  What comes later only matters for the
first one: a reception in the second of the detection may follow it.  The thresholds must pass their
check (`Thresholds.check`), and for an absence the grace must not be zero; how weak a signal may be
can be changed at any time.
-/

namespace PeerBeacon

namespace Tracker

variable {buckets records : Nat} {limits : Thresholds} {before after : List Entry} {now : Entry}
  {id : NodeId} {period first last : Nat}

/-- Over a regular diary a sweep meets every silence that goes on for a period longer than it takes
to be found. -/
theorem Regular.exists_sweep_of_silence (h : Regular (before ++ now :: after) period)
    {limit : UInt32} (hlimit : limit ≠ 0) {heard : Nat}
    (hheard : heard ∈ hearings id limits (before ++ now :: after))
    (hlong : heard + limit.toNat + period ≤ now.second) :
    ∃ z ∈ sweeps before, heard < z ∧ heard + limit.toNat ≤ z ∧
      z < heard + limit.toNat + period := by
  have hpos : 0 < limit.toNat := UInt32.lt_iff_toNat_lt.mp (UInt32.pos_iff_ne_zero.mpr hlimit)
  obtain ⟨e, he, rfl⟩ := exists_of_mem_hearings hheard
  obtain ⟨z, hz, hle, hlt⟩ := h.exists_sweep_before he (Nat.lt_add_of_pos_right hpos) hlong
  exact ⟨z, hz, Nat.lt_of_lt_of_le (Nat.lt_add_of_pos_right hpos) hle, hle, hlt⟩

/-- No silence goes unnoticed for a period longer than it takes to be found. -/
theorem Regular.lt_of_unnoticed (h : Regular (before ++ now :: after) period) {limit : UInt32}
    (hlimit : limit ≠ 0) (hlast : last ∈ hearings id limits before)
    (hunnoticed : Unnoticed limit last (sweeps before)) :
    now.second < last + limit.toNat + period := by
  have hwhole : last ∈ hearings id limits (before ++ now :: after) := by
    rw [hearings_append]
    exact List.mem_append_left _ hlast
  by_contra hlong
  obtain ⟨z, hz, hafter, hfound, -⟩ := h.exists_sweep_of_silence hlimit hwhole
    (Nat.le_of_not_lt hlong)
  exact absurd (hunnoticed z hz hafter) (Nat.not_lt_of_le hfound)

/-- Two receptions on end, in a run that no sweep broke by the second `now`, are less than a timeout
and a period apart. -/
theorem Regular.lt_of_unbroken (h : Regular (before ++ now :: after) period) {limit : UInt32}
    (hlimit : limit ≠ 0) {heard : List Nat} (hunbroken : Unbroken limit first heard (sweeps before))
    {a b : Nat} (ha : a ∈ hearings id limits (before ++ now :: after)) (hpair : [a, b] <:+: heard)
    (hfirst : first ≤ a) (hb : b ≤ now.second) : b < a + limit.toNat + period := by
  by_contra hlong
  have hle := Nat.le_of_not_lt hlong
  obtain ⟨z, hz, hafter, hfound, hbefore⟩ := h.exists_sweep_of_silence hlimit ha
    (Nat.le_trans hle hb)
  exact absurd (hunbroken a b hpair hfirst z hz hafter (Nat.lt_of_lt_of_le hbefore hle))
    (Nat.not_lt_of_le hfound)

/-! ## Detection -/

/-- A peer is detected only after a run of receptions for as long as it takes: the event bears the
second of one of them, and from then on no two of them on end are a timeout and a period apart. -/
theorem run_detect_sustained (valid : limits.check = .ok ())
    (regular : Regular (before ++ now :: after) period) {since : Tick}
    (detected : .detect id since ∈
      (((start buckets records limits).run (calls before)).1.call now.call).2) :
    ∃ first ∈ hearings id limits (before ++ [now]), since = UInt32.ofNat first ∧
      first + limits.detectAfter.toNat ≤ now.second ∧
      ∀ a b, [a, b] <:+: hearings id limits (before ++ now :: after) → first ≤ a →
        b ≤ now.second → b < a + limits.shortTimeout.toNat + period := by
  obtain ⟨minRssi, hlimits⟩ := exists_adjusted_eq (calls before) limits
  obtain ⟨p?, q?, hvigil, hincident⟩ := exists_incident buckets records limits id regular.toInOrder
  obtain ⟨hheard, first, hfirst, hsince, hlong, hunbroken⟩ :=
    hvigil.exists_first_of_detect (regular.recent id limits) hincident
      (List.mem_filter.mpr ⟨detected, beq_self_eq_true id⟩)
  have hnow : hearings id limits (before ++ [now]) = hearings id limits before ++ [now.second] := by
    rw [hearings_append, hheard]
  rw [hlimits] at hlong hunbroken
  rw [← hnow] at hfirst hunbroken
  refine ⟨first, hfirst, hsince, hlong, fun a b hpair ha hb => ?_⟩
  have hshort := ((Thresholds.check_eq_ok_iff limits).mp valid).1
  have hmem := hpair.mem List.mem_cons_self
  by_cases hnew : now.second ≤ a
  · -- The two are in the second of the detection.
    have hpos : 0 < limits.shortTimeout.toNat :=
      UInt32.lt_iff_toNat_lt.mp (UInt32.pos_iff_ne_zero.mpr hshort)
    omega
  · rw [List.append_cons, hearings_append] at hpair
    rcases pair_infix_append hpair with hrun | hlater | ⟨hlast, -⟩
    · exact regular.lt_of_unbroken hshort hunbroken hmem hrun ha hb
    · obtain ⟨e, he, rfl⟩ := exists_of_mem_hearings (hlater.mem List.mem_cons_self)
      exact absurd (regular.le_after (List.mem_cons_of_mem now he)) hnew
    · rw [hnow, List.getLast?_concat] at hlast
      exact absurd (Nat.le_of_eq (Option.some.inj hlast)) hnew

/-- Thresholds for a short visit. -/
def briefLimits : Thresholds :=
  { detectAfter := 4, absentAfter := 4, shortTimeout := 2, leaveGrace := 2 }

/-- A peer comes near while the clock rolls over, with a sweep in every other second. -/
def approach : List Entry :=
  [⟨4294967293, .receive 7 (-50)⟩, ⟨4294967294, .sweep⟩, ⟨4294967295, .receive 7 (-50)⟩,
    ⟨4294967296, .sweep⟩]

/-- The peer is heard for the last time. -/
def farewell : Entry :=
  ⟨4294967297, .receive 7 (-50)⟩

/-- The sweeps go on until the peer has left. -/
def quiet : List Entry :=
  [⟨4294967298, .sweep⟩, ⟨4294967300, .sweep⟩]

/-- The sweep that finds the peer absent. -/
def finding : Entry :=
  ⟨4294967302, .sweep⟩

theorem regular_visit : Regular (approach ++ farewell :: (quiet ++ [finding])) 2 where
  ordered := by decide
  within := by decide
  exists_sweep e he e' he' s hs hend := by
    have hrange : ∀ e ∈ approach ++ farewell :: (quiet ++ [finding]),
        4294967293 ≤ e.second ∧ e.second ≤ 4294967302 := by decide
    have hfirst := (hrange e he).1
    have hlast := (hrange e' he').2
    -- The sweeps stand in every other second between the first entry and the last one.
    refine ⟨4294967294 + 2 * ((s - 4294967293) / 2), ?_, by omega, by omega⟩
    have hslot : (s - 4294967293) / 2 < 4 := by omega
    generalize (s - 4294967293) / 2 = k at hslot
    revert k
    decide

/-- A detection while the clock rolls over. -/
theorem run_detect_sustained_visit :
    briefLimits.check = .ok () ∧
      .detect 7 4294967293 ∈ (((start 4 2 briefLimits).run (calls approach)).1.call farewell.call).2 ∧
      ∃ first ∈ hearings 7 briefLimits (approach ++ [farewell]),
        (4294967293 : Tick) = UInt32.ofNat first ∧
        first + briefLimits.detectAfter.toNat ≤ farewell.second ∧
        ∀ a b, [a, b] <:+: hearings 7 briefLimits (approach ++ farewell :: (quiet ++ [finding])) →
          first ≤ a → b ≤ farewell.second → b < a + briefLimits.shortTimeout.toNat + 2 := by
  have detected : .detect 7 4294967293 ∈
      (((start 4 2 briefLimits).run (calls approach)).1.call farewell.call).2 := by decide
  exact ⟨rfl, detected, run_detect_sustained rfl regular_visit detected⟩

/-! ## Absence -/

/-- A peer is absent once it was silent for long enough, and no more than a period later.  If a
period fits between the end of the grace and the absence, then it has left just before. -/
theorem run_absent_timely (valid : limits.check = .ok ()) (graceful : limits.leaveGrace ≠ 0)
    (regular : Regular (before ++ now :: after) period) {since : Tick} {dwell : UInt32}
    (absent : .absent id since dwell ∈
      (((start buckets records limits).run (calls before)).1.call now.call).2) :
    ∃ last ∈ hearings id limits before, since = UInt32.ofNat last ∧
      last + limits.absentAfter.toNat ≤ now.second ∧
      now.second < last + limits.absentAfter.toNat + period ∧
      (limits.leaveGrace.toNat + period ≤ limits.absentAfter.toNat → ∃ earlier,
        eventsAbout id ((start buckets records limits).run (calls (before ++ [now]))).2 =
          earlier ++ [.leave id since, .absent id since dwell]) := by
  obtain ⟨minRssi, hlimits⟩ := exists_adjusted_eq (calls before) limits
  obtain ⟨p?, q?, hvigil, hincident⟩ := exists_incident buckets records limits id regular.toInOrder
  obtain ⟨hevents, last, hlast, hsince, hlong, hknown⟩ :=
    hvigil.exists_last_of_absent (regular.recent id limits) hincident
      (List.mem_filter.mpr ⟨absent, beq_self_eq_true id⟩)
  rw [hlimits] at hlong hknown
  replace hlong : last + limits.absentAfter.toNat ≤ now.second := hlong
  have hgrace : limits.leaveGrace.toNat ≤ limits.absentAfter.toNat :=
    UInt32.le_iff_toNat_le.mp ((Thresholds.check_eq_ok_iff limits).mp valid).2
  have hgraceful : limits.absentAfter ≠ 0 := fun h => graceful (UInt32.toNat_inj.mp (by
    rw [h] at hgrace
    exact Nat.le_zero.mp hgrace))
  refine ⟨last, hlast, hsince, hlong, ?_, fun hfits => ?_⟩
  · rcases hknown with hunnoticed | ⟨hunnoticed, -⟩
    · have hlate := regular.lt_of_unnoticed graceful hlast hunnoticed
      omega
    · exact regular.lt_of_unnoticed hgraceful hlast hunnoticed
  · rcases hknown with hunnoticed | ⟨-, hleft⟩
    · -- A sweep would have found the grace over.
      have hlate := regular.lt_of_unnoticed graceful hlast hunnoticed
      omega
    · obtain ⟨earlier, hearlier⟩ := List.getLast?_eq_some_iff.mp hleft
      refine ⟨earlier, ?_⟩
      rw [calls_append]
      refine (eventsAbout_run_concat _ id (calls before) now.call).trans ?_
      rw [hevents, hearlier, List.append_assoc]
      rfl

/-- An absence after the clock has rolled over. -/
theorem run_absent_timely_visit :
    briefLimits.check = .ok () ∧ briefLimits.leaveGrace ≠ 0 ∧
      .absent 7 1 0 ∈ (((start 4 2 briefLimits).run (calls (approach ++ farewell :: quiet))).1.call
        finding.call).2 ∧
      ∃ last ∈ hearings 7 briefLimits (approach ++ farewell :: quiet),
        (1 : Tick) = UInt32.ofNat last ∧ last + briefLimits.absentAfter.toNat ≤ finding.second ∧
        finding.second < last + briefLimits.absentAfter.toNat + 2 ∧
        (briefLimits.leaveGrace.toNat + 2 ≤ briefLimits.absentAfter.toNat → ∃ earlier,
          eventsAbout 7 ((start 4 2 briefLimits).run
            (calls (approach ++ farewell :: quiet ++ [finding]))).2 =
          earlier ++ [.leave 7 1, .absent 7 1 0]) := by
  have regular : Regular (approach ++ farewell :: quiet ++ finding :: []) 2 := regular_visit
  have absent : .absent 7 1 0 ∈ (((start 4 2 briefLimits).run
      (calls (approach ++ farewell :: quiet))).1.call finding.call).2 := by decide
  exact ⟨rfl, by decide, absent, run_absent_timely rfl (by decide) regular absent⟩

end Tracker

end PeerBeacon
