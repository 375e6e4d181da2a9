import PeerBeacon.Proofs.Tracker.Course

/-!
# Sweeping more often

A sweep looks only at how long each peer has been silent, so another one just before it should not
matter.  It does leave a trace: a peer that it finds quiet is leaving from then on, while the later
sweep alone would report the leave itself, or would find the peer absent at once and report no leave
at all.  Apart from these two things nothing is different, as long as the later sweep finds every
peer silent for at least as long as the earlier one does.

`Peer.age_cases` says what the earlier sweep does to one peer in terms of the later one, and the
rest follows peer by peer: what is left (`Peer.undated_age_age`), and what is reported
(`Peer.due_age_cases`).  The order of a report depends on the places of the records, which the
earlier sweep may have moved, so reports are compared up to order.  The main statement is
`Tracker.run_sweep_absorbs`.
-/

namespace PeerBeacon

/-- The events of one kind, in order. -/
def eventsOf (kind : Event.Kind) (events : List Event) : List Event :=
  events.filter fun e => e.kind == kind

/-- The record without the start of its window. -/
def Record.undated (r : Record) : Record :=
  { r with windowStart := none }

namespace Peer

variable (limits : Thresholds) {now₁ now₂ : Tick} {p : Peer}

/-- What a sweep at `now₁` does to a peer that a sweep at `now₂` finds silent for at least as
long: nothing, or what the later sweep would do in its place, or it finds the peer quiet. -/
theorem age_cases (id : NodeId) (sooner : Tick.elapsed now₁ p.last ≤ Tick.elapsed now₂ p.last) :
    (p.due limits now₁ id = none ∧ p.age limits now₁ = some p) ∨
      (p.due limits now₁ id = p.due limits now₂ id ∧ p.age limits now₁ = none ∧
        p.age limits now₂ = none) ∨
      ∃ last detectedAt, p = present last detectedAt ∧
        limits.leaveGrace ≤ Tick.elapsed now₂ last ∧
        p.due limits now₁ id = some (.leave id last) ∧
        p.age limits now₁ = some (leaving now₁ last detectedAt) := by
  have later : ∀ limit, limit ≤ Tick.elapsed now₁ p.last → limit ≤ Tick.elapsed now₂ p.last :=
    fun limit h => UInt32.le_trans h sooner
  cases p with
  | nearing first last =>
    by_cases hfaded : limits.shortTimeout ≤ Tick.elapsed now₁ last
    · exact .inr (.inl ⟨rfl, if_pos hfaded, if_pos (later _ hfaded)⟩)
    · exact .inl ⟨rfl, if_neg hfaded⟩
  | present last detectedAt =>
    rw [due, due, age, age]
    by_cases habsent : limits.absentAfter ≤ Tick.elapsed now₁ last
    · have habsent₂ : limits.absentAfter ≤ Tick.elapsed now₂ last := later _ habsent
      rw [if_pos habsent, if_pos habsent, if_pos habsent₂, if_pos habsent₂]
      exact .inr (.inl ⟨rfl, rfl, rfl⟩)
    · rw [if_neg habsent, if_neg habsent]
      by_cases hquiet : limits.leaveGrace ≤ Tick.elapsed now₁ last
      · rw [if_pos hquiet, if_pos hquiet]
        exact .inr (.inr ⟨last, detectedAt, rfl, later _ hquiet, rfl, rfl⟩)
      · rw [if_neg hquiet, if_neg hquiet]
        exact .inl ⟨rfl, rfl⟩
  | leaving quietSince last detectedAt =>
    rw [due, due, age, age]
    by_cases habsent : limits.absentAfter ≤ Tick.elapsed now₁ last
    · have habsent₂ : limits.absentAfter ≤ Tick.elapsed now₂ last := later _ habsent
      rw [if_pos habsent, if_pos habsent, if_pos habsent₂, if_pos habsent₂]
      exact .inr (.inl ⟨rfl, rfl, rfl⟩)
    · rw [if_neg habsent, if_neg habsent]
      exact .inl ⟨rfl, rfl⟩

/-- Both sweeps leave of a peer what the later one alone does, but for the start of the silence of
one that is leaving. -/
theorem undated_age_age (id : NodeId)
    (sooner : Tick.elapsed now₁ p.last ≤ Tick.elapsed now₂ p.last) :
    ((p.age limits now₁).bind (age limits now₂)).map (fun q => (q.record id).undated) =
      (p.age limits now₂).map fun q => (q.record id).undated := by
  rcases age_cases limits id sooner with ⟨-, hage⟩ | ⟨-, hage, hage₂⟩ |
    ⟨last, detectedAt, rfl, hquiet, -, hage⟩
  · rw [hage, Option.bind_some]
  · rw [hage, hage₂, Option.bind_none]
  · rw [hage, Option.bind_some, age, age, if_pos hquiet]
    split <;> rfl

/-- Both sweeps report of a peer what the later one alone does, and if that finds the peer absent,
the earlier one may have found it quiet. -/
theorem due_age_cases (id : NodeId)
    (sooner : Tick.elapsed now₁ p.last ≤ Tick.elapsed now₂ p.last) :
    (p.due limits now₁ id).toList ++ ((p.age limits now₁).bind (due limits now₂ id)).toList =
        (p.due limits now₂ id).toList ∨
      ∃ since dwell, p.due limits now₂ id = some (.absent id since dwell) ∧
        (p.due limits now₁ id).toList ++ ((p.age limits now₁).bind (due limits now₂ id)).toList =
          [.leave id since, .absent id since dwell] := by
  rcases age_cases limits id sooner with ⟨hdue, hage⟩ | ⟨hdue, hage, -⟩ |
    ⟨last, detectedAt, rfl, hquiet, hdue, hage⟩
  · rw [hdue, hage]
    exact .inl rfl
  · rw [hdue, hage]
    exact .inl (List.append_nil _)
  · rw [hdue, hage, Option.bind_some, due, due, if_pos hquiet]
    split
    · exact .inr ⟨last, _, rfl, rfl⟩
    · exact .inl rfl

end Peer

/-! ## Reports compared peer by peer -/

theorem filter_isAbout_eventsOf (kind : Event.Kind) (id : NodeId) (events : List Event) :
    (eventsOf kind events).filter (Event.isAbout id) =
      eventsOf kind (events.filter (Event.isAbout id)) :=
  List.filter_comm _ _ events

theorem count_eq_count_about (e : Event) (events : List Event) :
    events.count e = (events.filter (Event.isAbout e.id)).count e :=
  (List.count_filter (p := Event.isAbout e.id) (beq_self_eq_true e.id)).symm

/-- Events of one kind about every peer in turn make up the events of that kind. -/
theorem count_eventsOf (kind : Event.Kind) (e : Event) (events : List Event) :
    (eventsOf kind events).count e =
      (eventsOf kind (events.filter (Event.isAbout e.id))).count e := by
  rw [count_eq_count_about, filter_isAbout_eventsOf]

section Reports

-- Two reports say the same of each peer, or only the former says that the peer left, before both
-- say that it is absent.
variable {l l' : List Event} (h : ∀ id,
  l.filter (Event.isAbout id) = l'.filter (Event.isAbout id) ∨
    ∃ since dwell, l'.filter (Event.isAbout id) = [.absent id since dwell] ∧
      l.filter (Event.isAbout id) = [.leave id since, .absent id since dwell])
include h

theorem perm_eventsOf_absent : (eventsOf .absent l).Perm (eventsOf .absent l') := by
  refine List.perm_iff_count.mpr fun e => ?_
  rw [count_eventsOf, count_eventsOf _ _ l']
  rcases h e.id with hsame | ⟨since, dwell, hone, hboth⟩
  · rw [hsame]
  · rw [hone, hboth]
    rfl

theorem count_leave_cases (e : Event) :
    (eventsOf .leave l).count e = (eventsOf .leave l').count e ∨
      (eventsOf .leave l').count e = 0 ∧ ∃ id since dwell,
        .absent id since dwell ∈ l' ∧ (eventsOf .leave l).count e = [.leave id since].count e := by
  rw [count_eventsOf, count_eventsOf _ _ l']
  rcases h e.id with hsame | ⟨since, dwell, hone, hboth⟩
  · rw [hsame]
    exact .inl rfl
  · have hmem : .absent e.id since dwell ∈ l'.filter (Event.isAbout e.id) :=
      hone ▸ List.mem_singleton_self _
    rw [hone, hboth]
    exact .inr ⟨rfl, e.id, since, dwell, (List.mem_filter.mp hmem).1, rfl⟩

theorem exists_perm_eventsOf_leave :
    ∃ extra, (eventsOf .leave l).Perm (eventsOf .leave l' ++ extra) ∧
      ∀ e ∈ extra, ∃ id since dwell, e = .leave id since ∧ .absent id since dwell ∈ l' := by
  have hle : ∀ e ∈ eventsOf .leave l',
      (eventsOf .leave l').count e ≤ (eventsOf .leave l).count e := by
    intro e _
    rcases count_leave_cases h e with hsame | ⟨hnone, -⟩
    · exact Nat.le_of_eq hsame.symm
    · exact hnone ▸ Nat.zero_le _
  refine ⟨(eventsOf .leave l).diff (eventsOf .leave l'),
    (List.subperm_append_diff_self_of_count_le hle).symm, fun e he => ?_⟩
  have hcount := List.count_pos_iff.mpr he
  rw [List.count_diff] at hcount
  rcases count_leave_cases h e with hsame | ⟨-, id, since, dwell, habsent, hleave⟩
  · rw [hsame, Nat.sub_self] at hcount
    exact absurd hcount (Nat.lt_irrefl 0)
  · have hmem : e ∈ [Event.leave id since] := List.count_pos_iff.mp (by omega)
    exact ⟨id, since, dwell, List.mem_singleton.mp hmem, habsent⟩

end Reports

namespace Tracker

variable {buckets records : Nat} {t : Tracker buckets records} {c : Census} {now₁ now₂ : Tick}

/-- The sweep at `now₂` finds what it would find without another one at `now₁` just before, and
what that one found is part of it, leaves of absent peers apart. -/
structure Absorbs (t : Tracker buckets records) (now₁ now₂ : Tick) : Prop where
  /-- The same peers are left. -/
  ids_perm : (t.run [.sweep now₁, .sweep now₂]).1.roster.ids.Perm
    (t.run [.sweep now₂]).1.roster.ids
  /-- Their records differ at most in the start of their windows. -/
  undated_eq : ∀ id,
    ((t.run [.sweep now₁, .sweep now₂]).1.roster.get? id).map Record.undated =
      ((t.run [.sweep now₂]).1.roster.get? id).map Record.undated
  /-- The same peers are reported as absent. -/
  absents : (eventsOf .absent (t.run [.sweep now₁, .sweep now₂]).2.flatten).Perm
    (eventsOf .absent (t.run [.sweep now₂]).2.flatten)
  /-- The same peers are reported as leaving, and perhaps some that are absent. -/
  leaves : ∃ extra, (eventsOf .leave (t.run [.sweep now₁, .sweep now₂]).2.flatten).Perm
      (eventsOf .leave (t.run [.sweep now₂]).2.flatten ++ extra) ∧
    ∀ e ∈ extra, ∃ id since dwell, e = .leave id since ∧
      .absent id since dwell ∈ (t.run [.sweep now₂]).2.flatten

namespace Mirrors

variable (h : t.Mirrors c)
  (sooner : ∀ r ∈ t.roster.tracked, ∀ last ∈ r.lastHeard,
    Tick.elapsed now₁ last ≤ Tick.elapsed now₂ last)
include h

/-- The records of a tracker are those of its peers. -/
theorem record_mem_tracked {id : NodeId} {p : Peer} (hp : c.peers.get? id = some p) :
    p.record id ∈ t.roster.tracked := by
  have hget : t.roster.get? id = some (p.record id) := by
    rw [h.holds.get?_eq, hp, Option.map_some]
  obtain ⟨e, he, -, hrecord⟩ := h.holds.faithful.get?_eq_some_iff.mp hget
  exact List.mem_map.mpr ⟨e, he, hrecord⟩

include sooner

theorem elapsed_le_elapsed {id : NodeId} {p : Peer} (hp : c.peers.get? id = some p) :
    Tick.elapsed now₁ p.last ≤ Tick.elapsed now₂ p.last :=
  sooner _ (h.record_mem_tracked hp) _ (p.lastHeard_record id)

theorem undated_sweep_sweep (id : NodeId) :
    (((t.sweep now₁).state.sweep now₂).state.roster.get? id).map Record.undated =
      ((t.sweep now₂).state.roster.get? id).map Record.undated := by
  obtain ⟨d₁, hd₁, hpeers₁⟩ := h.exists_sweep now₁
  obtain ⟨d, hd, hpeers⟩ := hd₁.exists_sweep now₂
  obtain ⟨d₂, hd₂, hpeers₂⟩ := h.exists_sweep now₂
  rw [hd.holds.get?_eq, hd₂.holds.get?_eq, (hpeers id).1, (hpeers₁ id).1, (hpeers₂ id).1,
    thresholds_sweep, Option.map_map, Option.map_map]
  cases hp : c.peers.get? id with
  | none => rfl
  | some p => exact Peer.undated_age_age t.thresholds id (h.elapsed_le_elapsed sooner hp)

theorem about_sweep_sweep (id : NodeId) :
    ((t.sweep now₁).answer ++ ((t.sweep now₁).state.sweep now₂).answer).filter
        (Event.isAbout id) = (t.sweep now₂).answer.filter (Event.isAbout id) ∨
      ∃ since dwell,
        (t.sweep now₂).answer.filter (Event.isAbout id) = [.absent id since dwell] ∧
        ((t.sweep now₁).answer ++ ((t.sweep now₁).state.sweep now₂).answer).filter
          (Event.isAbout id) = [.leave id since, .absent id since dwell] := by
  obtain ⟨d₁, hd₁, hpeers₁⟩ := h.exists_sweep now₁
  obtain ⟨d, hd, hpeers⟩ := hd₁.exists_sweep now₂
  obtain ⟨d₂, hd₂, hpeers₂⟩ := h.exists_sweep now₂
  rw [List.filter_append, (hpeers id).2, (hpeers₁ id).2, (hpeers₂ id).2, (hpeers₁ id).1,
    thresholds_sweep]
  cases hp : c.peers.get? id with
  | none => exact .inl rfl
  | some p =>
    rcases Peer.due_age_cases t.thresholds id (h.elapsed_le_elapsed sooner hp) with
      hsame | ⟨since, dwell, hdue, hboth⟩
    · exact .inl hsame
    · exact .inr ⟨since, dwell, congrArg Option.toList hdue, hboth⟩

theorem absorbs : t.Absorbs now₁ now₂ := by
  have htwice : (t.run [.sweep now₁, .sweep now₂]).2.flatten =
      (t.sweep now₁).answer ++ ((t.sweep now₁).state.sweep now₂).answer :=
    congrArg ((t.sweep now₁).answer ++ ·) (List.append_nil _)
  have honce : (t.run [.sweep now₂]).2.flatten = (t.sweep now₂).answer := List.append_nil _
  have habout := h.about_sweep_sweep sooner
  have hundated := h.undated_sweep_sweep sooner
  obtain ⟨d₁, hd₁, -⟩ := h.exists_sweep now₁
  obtain ⟨d, hd, -⟩ := hd₁.exists_sweep now₂
  obtain ⟨d₂, hd₂, -⟩ := h.exists_sweep now₂
  refine ⟨?_, hundated, ?_, ?_⟩
  · refine (List.perm_ext_iff_of_nodup hd.holds.faithful.nodup_ids
      hd₂.holds.faithful.nodup_ids).mpr fun id => ?_
    have hknown := congrArg Option.isSome (hundated id)
    rw [Option.isSome_map, Option.isSome_map] at hknown
    exact (hd.holds.faithful.mem_ids_iff.trans (by rw [hknown])).trans
      hd₂.holds.faithful.mem_ids_iff.symm
  · rw [htwice, honce]
    exact perm_eventsOf_absent habout
  · rw [htwice, honce]
    exact exists_perm_eventsOf_leave habout

end Mirrors

/-- **Sweeping more often changes nothing else.**  After any calls with any thresholds, a sweep at
`now₁` just before one at `now₂` makes no difference but to the leaves of absent peers and to the
starts of windows, if no peer has been silent for longer at `now₁` than at `now₂`. -/
theorem run_sweep_absorbs (buckets records : Nat) (limits : Thresholds) (calls : List Call)
    {now₁ now₂ : Tick}
    (sooner : ∀ r ∈ ((start buckets records limits).run calls).1.roster.tracked,
      ∀ last ∈ r.lastHeard, Tick.elapsed now₁ last ≤ Tick.elapsed now₂ last) :
    ((start buckets records limits).run calls).1.Absorbs now₁ now₂ := by
  obtain ⟨c, -, hc⟩ := Mirrors.exists_run calls (Mirrors.start buckets records limits)
  exact hc.absorbs sooner

/-- Receptions from three peers just before the clock rolls over. -/
def gathering : List Call :=
  [.receive 7 (-50) 4294967288, .receive 9 (-50) 4294967290, .receive 7 (-50) 4294967292,
    .receive 9 (-50) 4294967294, .receive 3 (-50) 4294967294]

/-- Thresholds by which a nearing peer fades after a second. -/
def hastyLimits : Thresholds :=
  { detectAfter := 4, absentAfter := 4, shortTimeout := 1, leaveGrace := 2 }

/-- One second before the clock rolls over peer `7` is quiet and peer `3` fades; one second later
peer `7` is absent. -/
theorem run_sweep_absorbs_gathering :
    (∀ r ∈ ((start 4 3 hastyLimits).run gathering).1.roster.tracked,
      ∀ last ∈ r.lastHeard, Tick.elapsed 4294967295 last ≤ Tick.elapsed 0 last) ∧
    ((start 4 3 hastyLimits).run gathering).1.Absorbs 4294967295 0 := by
  have hall : ∀ r ∈ ((start 4 3 hastyLimits).run gathering).1.roster.tracked,
      (r.lastHeard.all fun last =>
        decide (Tick.elapsed 4294967295 last ≤ Tick.elapsed 0 last)) = true := by
    decide
  have sooner : ∀ r ∈ ((start 4 3 hastyLimits).run gathering).1.roster.tracked,
      ∀ last ∈ r.lastHeard, Tick.elapsed 4294967295 last ≤ Tick.elapsed 0 last :=
    fun r hr last hlast => of_decide_eq_true ((Option.all_eq_true _ _).mp (hall r hr) last hlast)
  exact ⟨sooner, run_sweep_absorbs 4 3 hastyLimits gathering sooner⟩

/-- The earlier sweep reports a leave that the later one alone does not. -/
example :
    (((start 4 3 hastyLimits).run gathering).1.run [.sweep 4294967295, .sweep 0]).2 =
        [[.leave 7 4294967292], [.leave 9 4294967294, .absent 7 4294967292 0]] ∧
      (((start 4 3 hastyLimits).run gathering).1.run [.sweep 0]).2 =
        [[.leave 9 4294967294, .absent 7 4294967292 0]] := by
  decide

end Tracker

end PeerBeacon
