import PeerBeacon.Proofs.Tracker.Provenance
import PeerBeacon.Proofs.Tracker.Lone
import PeerBeacon.Settings.Fault

/-!
# Thresholds to the second

A peer is detected in the second in which it has been heard for as long as it takes, and absent in
the second in which it has been silent for as long as it takes; a second less is not enough.  This
holds wherever on the clock these seconds lie, but only as far as the clock can tell: a span of half
its range or more is taken for none at all (`Tick.elapsed_add_right`).

A threshold of half the range or more is accepted like any other, and is never reached
(`Tracker.threshold_missed`).  With that exception thresholds are exact (`Tracker.run_exact`).
-/

namespace PeerBeacon

/-! ## Spans on the clock -/

namespace Tick

/-- A span of less than half the range is shown as it is, and any other one as none. -/
theorem elapsed_add_right (since span : UInt32) :
    elapsed (since + span) since = if span.toNat < 2 ^ 31 then span else 0 := by
  have hdiff : since + span - since = span := by
    rw [UInt32.add_comm, UInt32.add_sub_cancel]
  have hhalf : 0x7FFFFFFF < span ↔ ¬span.toNat < 2 ^ 31 := by
    rw [UInt32.lt_iff_toNat_lt, Nat.not_lt]
    exact Iff.rfl
  rw [elapsed, hdiff]
  simp only [hhalf]
  rw [ite_not]

/-- A threshold is reached by spans that are no shorter and that the clock can show. -/
theorem le_elapsed_add_right_iff {limit : UInt32} (hlimit : limit ≠ 0) (since span : UInt32) :
    limit ≤ elapsed (since + span) since ↔ limit ≤ span ∧ span.toNat < 2 ^ 31 := by
  rw [elapsed_add_right]
  split
  · next h => exact (and_iff_left h).symm
  · next h =>
    refine iff_of_false (fun hle => hlimit ?_) (fun hand => h hand.2)
    exact UInt32.le_antisymm hle UInt32.zero_le

end Tick

namespace Peer

variable {limits : Thresholds} {now : Tick} {id : NodeId} {p : Peer}

/-- The latest reception is as far from the one before as the new one is. -/
theorem elapsed_later (last heard : Tick) :
    Tick.elapsed (later last heard) last = Tick.elapsed heard last := by
  rw [later]
  split
  · next h => rw [Tick.elapsed_self, h]
  · rfl

/-- A peer that has just come near is detected if the span since then is over. -/
theorem hearEvent_nearing (detectAfter : UInt32) (first heard : Tick) (id : NodeId) :
    (nearing first first).hearEvent detectAfter heard id =
      if detectAfter ≤ Tick.elapsed heard first then some (.detect id first) else none := by
  rw [hearEvent, elapsed_later]

/-- A peer is not detected at its first reception, unless no span is asked for. -/
theorem hear_first {detectAfter : UInt32} (h : detectAfter ≠ 0) (first : Tick) (id : NodeId) :
    (nearing first first).hear detectAfter first = nearing first first ∧
      (nearing first first).hearEvent detectAfter first id = none := by
  have hlater : later first first = first := ite_self first
  have hshort : ¬detectAfter ≤ Tick.elapsed first first := by
    rw [Tick.elapsed_self]
    exact fun hle => h (UInt32.le_antisymm hle UInt32.zero_le)
  rw [hear, hearEvent, hlater, if_neg hshort, if_neg hshort]
  exact ⟨rfl, rfl⟩

/-- A detected peer that has not been silent for long enough stays detected. -/
theorem exists_age_of_short (hp : p.isDetected = true)
    (hshort : ¬limits.absentAfter ≤ Tick.elapsed now p.last) :
    ∃ q, p.age limits now = some q ∧ q.isDetected = true ∧ q.last = p.last := by
  cases p with
  | nearing first last => cases hp
  | present last detectedAt =>
    rw [Peer.last] at hshort
    rw [age, if_neg hshort]
    split <;> exact ⟨_, rfl, rfl, rfl⟩
  | leaving quietSince last detectedAt =>
    rw [Peer.last] at hshort
    rw [age, if_neg hshort]
    exact ⟨_, rfl, rfl, rfl⟩

/-- A detected peer is reported as absent if it has been silent for long enough. -/
theorem exists_absent_iff (hp : p.isDetected = true) (id : NodeId) :
    (∃ dwell, p.due limits now id = some (.absent id p.last dwell)) ↔
      limits.absentAfter ≤ Tick.elapsed now p.last := by
  constructor
  · rintro ⟨dwell, hdue⟩
    by_contra hshort
    obtain ⟨q, hage, -⟩ := exists_age_of_short hp hshort
    cases (keeps_of_age hage id).2.2 _ hdue
  · intro hlong
    cases p with
    | nearing first last => cases hp
    | present last detectedAt => exact ⟨_, if_pos hlong⟩
    | leaving quietSince last detectedAt => exact ⟨_, if_pos hlong⟩

end Peer

namespace Tracker

variable {buckets records : Nat} {t : Tracker buckets records} {id : NodeId} {c : Census} {p : Peer}

/-! ## Detection -/

/-- Of two receptions of a new peer the second one is when it is detected, if the span between them
is long enough. -/
theorem reports_of_two {limits : Thresholds} (hid : id ≠ NodeId.reserved)
    (room : 0 < min buckets records) (detectAfter_ne : limits.detectAfter ≠ 0) {rssi rssi' : Int16}
    (hq : limits.qualifies rssi = true) (hq' : limits.qualifies rssi' = true)
    (first span : UInt32) :
    ((start buckets records limits).run
        [.receive id rssi first, .receive id rssi' (first + span)]).2 =
      [[], if limits.detectAfter ≤ span ∧ span.toNat < 2 ^ 31 then [.detect id first] else []] := by
  have hnobody : (start buckets records limits).HoldsOnly id none :=
    .of_empty (Roster.Holds.empty buckets records) id
  have hlimits : ((start buckets records limits).receive id rssi first).state.thresholds = limits :=
    thresholds_receive _ id rssi first
  obtain ⟨hstays, hsilent⟩ := Peer.hear_first detectAfter_ne first id
  obtain ⟨hnear, hfirst⟩ := hnobody.receive hid room hq first
  replace hfirst : ((start buckets records limits).receive id rssi first).answer = none :=
    hfirst.trans hsilent
  replace hnear : ((start buckets records limits).receive id rssi first).state.HoldsOnly id
      (some (.nearing first first)) := hstays ▸ hnear
  obtain ⟨-, hsecond⟩ := hnear.receive hid room (hlimits.symm ▸ hq') (first + span)
  rw [hlimits, Option.getD_some, Peer.hearEvent_nearing] at hsecond
  simp only [Tick.le_elapsed_add_right_iff detectAfter_ne] at hsecond
  simp only [run, call, hfirst, hsecond]
  split <;> rfl

/-- Receptions from the reserved id do not detect anybody. -/
theorem reports_of_reserved {limits : Thresholds} {rssi rssi' : Int16}
    (hq : limits.qualifies rssi = true) (hq' : limits.qualifies rssi' = true)
    (first second : Tick) :
    ((start buckets records limits).run
        [.receive NodeId.reserved rssi first, .receive NodeId.reserved rssi' second]).2 =
      [[], []] := by
  have hnobody : (start buckets records limits).roster.Holds .empty :=
    Roster.Holds.empty buckets records
  obtain ⟨hroster, hfirst⟩ := receive_reserved hnobody hq first
  have hlimits : ((start buckets records limits).receive NodeId.reserved rssi
      first).state.thresholds = limits := thresholds_receive _ _ rssi first
  obtain ⟨-, hsecond⟩ := receive_reserved (hroster.symm ▸ hnobody) (hlimits.symm ▸ hq') second
  simp only [run, call, hfirst, hsecond, Option.toList_none]

/-! ## Absence -/

/-- Sweeps that come before a detected peer has been silent for long enough leave it detected, and
do not report it as absent. -/
theorem sweeps_short (nows : List Tick) :
    ∀ {t : Tracker buckets records} {c : Census} {p : Peer}, t.Mirrors c →
      c.peers.get? id = some p → p.isDetected = true →
      (∀ now ∈ nows, ¬t.thresholds.absentAfter ≤ Tick.elapsed now p.last) →
      (∃ d q, (t.run (nows.map .sweep)).1.Mirrors d ∧ d.peers.get? id = some q ∧
        q.isDetected = true ∧ q.last = p.last) ∧
      ∀ e ∈ eventsAbout id (t.run (nows.map .sweep)).2, e.kind ≠ .absent := by
  induction nows with
  | nil => exact fun {t c p} hc hp hdetected _ => ⟨⟨c, p, hc, hp, hdetected, rfl⟩, nofun⟩
  | cons now nows ih =>
    intro t c p hc hp hdetected hshort
    obtain ⟨d, hd, hpeer⟩ := hc.exists_sweep now
    obtain ⟨hget, hevents⟩ := hpeer id
    obtain ⟨q, hage, hdetected', hlast⟩ :=
      Peer.exists_age_of_short hdetected (hshort now List.mem_cons_self)
    rw [hp, Option.bind_some] at hget hevents
    obtain ⟨hafter, hrest⟩ := ih hd (hget.trans hage) hdetected' fun now' hnow' => by
      rw [hlast]
      exact hshort now' (List.mem_cons_of_mem now hnow')
    rw [hlast] at hafter
    refine ⟨hafter, fun e he => ?_⟩
    have hsplit : eventsAbout id (t.run ((now :: nows).map .sweep)).2 =
        (p.due t.thresholds now id).toList ++
          eventsAbout id ((t.sweep now).state.run (nows.map .sweep)).2 := by
      rw [← hevents]
      exact List.filter_append _ _
    rw [hsplit] at he
    rcases List.mem_append.mp he with hnew | hlater
    · rw [(Peer.keeps_of_age hage id).2.2 e (Option.mem_toList.mp hnew)]
      exact nofun
    · exact hrest e hlater

/-- A sweep reports a detected peer as absent if it has been silent for long enough. -/
theorem exists_absent_iff (hc : t.Mirrors c) (hp : c.peers.get? id = some p)
    (hdetected : p.isDetected = true) (now : Tick) :
    (∃ dwell, .absent id p.last dwell ∈ (t.sweep now).answer) ↔
      t.thresholds.absentAfter ≤ Tick.elapsed now p.last := by
  obtain ⟨d, -, hpeer⟩ := hc.exists_sweep now
  have hevents := (hpeer id).2
  rw [hp, Option.bind_some] at hevents
  rw [← Peer.exists_absent_iff hdetected id]
  refine exists_congr fun dwell => ?_
  have habout : Event.isAbout id (.absent id p.last dwell) = true := beq_self_eq_true id
  calc .absent id p.last dwell ∈ (t.sweep now).answer
      ↔ .absent id p.last dwell ∈ (t.sweep now).answer.filter (Event.isAbout id) :=
        ⟨fun h => List.mem_filter.mpr ⟨h, habout⟩, fun h => (List.mem_filter.mp h).1⟩
    _ ↔ p.due t.thresholds now id = some (.absent id p.last dwell) := by
        rw [hevents, Option.mem_toList]

/-- The absence threshold does not move. -/
theorem absentAfter_run (t : Tracker buckets records) (calls : List Call) :
    (t.run calls).1.thresholds.absentAfter = t.thresholds.absentAfter := by
  obtain ⟨minRssi, hlimits⟩ := exists_adjusted_eq calls t.thresholds
  rw [thresholds_run, hlimits]

/-! ## Both thresholds -/

/-- **Thresholds are exact.**  Of two receptions of a new peer the second one detects it if and only
if the span between them is no shorter than the threshold; the reserved id is no peer.  Sweeps that
come before a detected peer has been silent for as long as the threshold do not report it as absent,
and the next sweep does if and only if by then it has.  Spans count up to half the range of the
clock, wherever they begin. -/
theorem run_exact (buckets records : Nat) (limits : Thresholds) (id : NodeId)
    (room : 0 < min buckets records) :
    (limits.detectAfter ≠ 0 → ∀ rssi rssi' : Int16,
      limits.qualifies rssi = true → limits.qualifies rssi' = true → ∀ first span : UInt32,
        ((start buckets records limits).run
            [.receive id rssi first, .receive id rssi' (first + span)]).2 =
          [[], if id ≠ NodeId.reserved ∧ limits.detectAfter ≤ span ∧ span.toNat < 2 ^ 31 then
            [.detect id first] else []]) ∧
    (limits.absentAfter ≠ 0 → ∀ (calls : List Call) (r : Record) (last : Tick),
      ((start buckets records limits).run calls).1.roster.get? id = some r →
      r.isDetected = true → r.lastHeard = some last →
      ∀ spans : List UInt32, (∀ span ∈ spans, span < limits.absentAfter) →
        let swept := ((start buckets records limits).run calls).1.run
          (spans.map fun span => .sweep (last + span))
        (∀ e ∈ eventsAbout id swept.2, e.kind ≠ .absent) ∧
        ∀ span, (∃ dwell, .absent id last dwell ∈ (swept.1.sweep (last + span)).answer) ↔
          limits.absentAfter ≤ span ∧ span.toNat < 2 ^ 31) := by
  constructor
  · intro detectAfter_ne rssi rssi' hq hq' first span
    by_cases hid : id = NodeId.reserved
    · subst hid
      simpa using reports_of_reserved hq hq' first (first + span)
    · simpa [hid] using reports_of_two hid room detectAfter_ne hq hq' first span
  · intro absentAfter_ne calls r last hr hdetected hlast spans hspans swept
    obtain ⟨c, -, hc⟩ := Mirrors.exists_run calls (Mirrors.start buckets records limits)
    rw [hc.holds.get?_eq, Option.map_eq_some_iff] at hr
    obtain ⟨p, hp, rfl⟩ := hr
    rw [Peer.isDetected_record] at hdetected
    obtain rfl : p.last = last := Option.some.inj ((p.lastHeard_record id).symm.trans hlast)
    have hlimit : ((start buckets records limits).run calls).1.thresholds.absentAfter =
        limits.absentAfter := absentAfter_run _ calls
    have hsweeps : (spans.map fun span => .sweep (p.last + span)) =
        ((spans.map fun span => p.last + span).map Call.sweep) := List.map_map.symm
    have hshort : ∀ now ∈ spans.map fun span => p.last + span,
        ¬((start buckets records limits).run calls).1.thresholds.absentAfter ≤
          Tick.elapsed now p.last := by
      intro now hnow
      obtain ⟨span, hspan, rfl⟩ := List.mem_map.mp hnow
      rw [hlimit, Tick.le_elapsed_add_right_iff absentAfter_ne]
      exact fun hlong => UInt32.not_le.mpr (hspans span hspan) hlong.1
    obtain ⟨⟨d, q, hd, hq, hdetected', hlast'⟩, hnone⟩ := sweeps_short _ hc hp hdetected hshort
    rw [← hsweeps] at hd hnone
    refine ⟨hnone, fun span => ?_⟩
    have habsent := exists_absent_iff hd hq hdetected' (p.last + span)
    rw [hlast', absentAfter_run, hlimit] at habsent
    exact habsent.trans (Tick.le_elapsed_add_right_iff absentAfter_ne p.last span)

/-- Thresholds of a few seconds. -/
def brisk : Thresholds where
  detectAfter := 3
  absentAfter := 6
  shortTimeout := 3
  leaveGrace := 2

/-- Two receptions just before the clock starts again from zero. -/
def latecomer : List Call :=
  [.receive 7 (-50) 0xFFFFFFFA, .receive 7 (-65) (0xFFFFFFFA + 3)]

/-- The second reception detects the peer.  Then there is a sweep in every second, and the one after
six seconds reports the peer as absent, when the clock has passed zero. -/
theorem run_exact_latecomer :
    ((start 4 2 brisk).run latecomer).2 = [[], [.detect 7 0xFFFFFFFA]] ∧
      let swept := ((start 4 2 brisk).run latecomer).1.run
        ([0, 1, 2, 3, 4, 5].map fun span => .sweep (0xFFFFFFFD + span))
      (∀ e ∈ eventsAbout 7 swept.2, e.kind ≠ .absent) ∧
        ∃ dwell, .absent 7 0xFFFFFFFD dwell ∈ (swept.1.sweep (0xFFFFFFFD + 6)).answer := by
  obtain ⟨hdetect, habsent⟩ := run_exact 4 2 brisk 7 (by decide)
  obtain ⟨r, hr⟩ : ∃ r, ((start 4 2 brisk).run latecomer).1.roster.get? 7 = some r ∧
      r.isDetected = true ∧ r.lastHeard = some 0xFFFFFFFD :=
    ⟨_, by rfl, by decide, by decide⟩
  have hspans : ∀ span ∈ [0, 1, 2, 3, 4, 5], span < brisk.absentAfter := by simp [brisk]
  obtain ⟨hnone, hiff⟩ :=
    habsent (by decide) latecomer r 0xFFFFFFFD hr.1 hr.2.1 hr.2.2 [0, 1, 2, 3, 4, 5] hspans
  exact ⟨hdetect (by decide) (-50) (-65) (by decide) (by decide) 0xFFFFFFFA 3, hnone,
    (hiff 6).mpr (by decide)⟩

/-- Settings with a threshold of half the range of the clock are accepted.  A peer that is heard
twice with that span between is not detected, and one that was silent for it is not absent. -/
theorem threshold_missed :
    Settings.check { thresholds := { detectAfter := 0x80000000 } } = .ok () ∧
      ((start 4 2 { detectAfter := 0x80000000 }).run
        [.receive 7 (-50) 0, .receive 7 (-50) (0 + 0x80000000)]).2 = [[], []] ∧
      Settings.check { thresholds := { absentAfter := 0x80000000 } } = .ok () ∧
      ((start 4 2 { absentAfter := 0x80000000 }).run
        [.receive 7 (-50) 0, .receive 7 (-50) 15, .sweep (15 + 0x80000000)]).2 =
        [[], [.detect 7 0], []] := by
  decide

end Tracker

end PeerBeacon
