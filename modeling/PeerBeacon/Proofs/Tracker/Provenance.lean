import PeerBeacon.Proofs.Tracker.Course
import PeerBeacon.Proofs.Tracker.Vigil

/-!
# Where the readings in events come from

The readings in an event are taken from a record.  They are set and given up on different occasions,
and the place of a record goes to other peers in between, so it takes an argument to see that a
reading is never left over from an earlier presence or from another peer.

What each reading should go back to is said in terms of a diary and of what the tracker reports over
it: the entry at which the record of a peer was made (`Tracker.MadeAt`), the entry at which the peer
was last detected (`Tracker.DetectedAt`), and the last second in which it was heard (`hearings`).
`Tracker.Recalls` says that the readings in the record of a peer are those, and each incident keeps
it so (`Tracker.Recalls.incident`).  Every event is therefore truthful (`Tracker.run_truthful`).
-/

namespace PeerBeacon

/-! ## The readings of a peer -/

namespace Peer

variable {limits : Thresholds} {detectAfter : UInt32} {heard now : Tick} {id : NodeId} {p q : Peer}

/-- The first reception of a peer that is nearing. -/
def first? : Peer → Option Tick
  | nearing first _ => some first
  | present .. | leaving .. => none

/-- The reading at which a peer that is present or leaving was detected. -/
def detectedAt? : Peer → Option Tick
  | nearing .. => none
  | present _ detectedAt | leaving _ _ detectedAt => some detectedAt

/-- What a sweep leaves of a peer has the readings of the peer, and a peer of which it leaves
something is at most reported as leaving. -/
theorem keeps_of_age (h : p.age limits now = some q) (id : NodeId) :
    q.first? = p.first? ∧ q.detectedAt? = p.detectedAt? ∧
      ∀ event ∈ p.due limits now id, event.kind = .leave := by
  have hnone : ∀ event ∈ (none : Option Event), event.kind = .leave :=
    fun event hevent => absurd hevent (Option.not_mem_none event)
  cases p with
  | nearing first last =>
    rw [age] at h
    split_ifs at h
    cases h
    exact ⟨rfl, rfl, hnone⟩
  | present last detectedAt =>
    rw [age] at h
    rw [due]
    split_ifs at h ⊢ <;> cases h
    · exact ⟨rfl, rfl, fun event hevent => Option.some.inj hevent ▸ rfl⟩
    · exact ⟨rfl, rfl, hnone⟩
  | leaving quietSince last detectedAt =>
    rw [age] at h
    rw [due]
    split_ifs at h ⊢
    cases h
    exact ⟨rfl, rfl, hnone⟩

/-- Hearing a peer that is detected already says nothing. -/
theorem hear_of_detected {detectedAt : Tick} (h : detectedAt ∈ p.detectedAt?) (id : NodeId) :
    p.hear detectAfter heard = present (later p.last heard) detectedAt ∧
      p.hearEvent detectAfter heard id = none := by
  cases p with
  | nearing first last => cases h
  | present last d =>
    cases h
    exact ⟨rfl, rfl⟩
  | leaving quietSince last d =>
    cases h
    exact ⟨rfl, rfl⟩

/-- A peer that is still nearing after a reception was nearing before, since the same time. -/
theorem first?_of_hear {first : Tick} (h : first ∈ (p.hear detectAfter heard).first?) :
    first ∈ p.first? := by
  cases p with
  | nearing first last =>
    rw [hear] at h
    split_ifs at h
    · cases h
    · exact h
  | present last detectedAt => cases h
  | leaving quietSince last detectedAt => cases h

/-- A peer that is detected after a reception was detected before, or is detected now. -/
theorem detectedAt?_of_hear {detectedAt : Tick}
    (h : detectedAt ∈ (p.hear detectAfter heard).detectedAt?) (id : NodeId) :
    detectedAt ∈ p.detectedAt? ∨ detectedAt = later p.last heard ∧
      ∃ since, p.hearEvent detectAfter heard id = some (.detect id since) := by
  cases p with
  | nearing first last =>
    rw [hear] at h
    rw [hearEvent]
    split_ifs at h ⊢
    · exact .inr ⟨(Option.some.inj h).symm, first, rfl⟩
    · cases h
  | present last d => exact .inl h
  | leaving quietSince last d => exact .inl h

/-- A detect bears the first reception of a peer that is nearing. -/
theorem exists_first_of_hearEvent {event : Event}
    (h : p.hearEvent detectAfter heard id = some event) :
    ∃ first ∈ p.first?, event = .detect id first := by
  cases p with
  | nearing first last =>
    rw [hearEvent] at h
    split_ifs at h
    exact ⟨first, rfl, (Option.some.inj h).symm⟩
  | present last detectedAt => cases h
  | leaving quietSince last detectedAt => cases h

/-- A leave bears the latest reception, and an absent bears the time up to it as well. -/
theorem due_cases {event : Event} (h : p.due limits now id = some event) :
    event = .leave id p.last ∨ ∃ detectedAt ∈ p.detectedAt?,
      event = .absent id p.last (Tick.elapsed p.last detectedAt) := by
  cases p with
  | nearing first last => cases h
  | present last detectedAt =>
    rw [due] at h
    split_ifs at h <;> cases h
    · exact .inr ⟨detectedAt, rfl, rfl⟩
    · exact .inl rfl
  | leaving quietSince last detectedAt =>
    rw [due] at h
    split_ifs at h
    cases h
    exact .inr ⟨detectedAt, rfl, rfl⟩

end Peer

namespace Tracker

variable {buckets records : Nat}

/-! ## What a diary says of a peer -/

/-- After the entries of a diary the peer is known. -/
def Knows (t : Tracker buckets records) (id : NodeId) (diary : List Entry) : Prop :=
  (t.run (calls diary)).1.roster.contains id = true

/-- The record of a peer was made at the entry `e`: the peer was not known then, it was heard, and
it has been known ever since. -/
def MadeAt (t : Tracker buckets records) (id : NodeId) (diary : List Entry) (e : Entry) : Prop :=
  ∃ before after, diary = before ++ e :: after ∧ ¬t.Knows id before ∧
    e.call.hears (t.run (calls before)).1.thresholds id = true ∧
    ∀ since, since <+: after → t.Knows id (before ++ e :: since)

/-- A peer was last detected at the entry `e`, a reception from it, and there have been no events
about it since, leaves apart. -/
def DetectedAt (t : Tracker buckets records) (id : NodeId) (diary : List Entry) (e : Entry) :
    Prop :=
  ∃ before after, diary = before ++ e :: after ∧
    e.call.hears (t.run (calls before)).1.thresholds id = true ∧
    (∃ since, .detect id since ∈ ((t.run (calls before)).1.call e.call).2) ∧
    ∀ event ∈ eventsAbout id ((t.run (calls (before ++ [e]))).1.run (calls after)).2,
      event.kind = .leave

/-- An event that is reported at the entry `now` bears the readings that it should.  A detect bears
that of the reception at which the record of the peer was made; a leave and an absent bear that of
the last reception before; and the dwell of an absent is the time from the reception at which the
peer was detected to the last one. -/
def Truthful (t : Tracker buckets records) (before : List Entry) (now : Entry) : Event → Prop
  | .detect id since => ∃ e, t.MadeAt id (before ++ [now]) e ∧ since = e.tick
  | .leave id since =>
    ∃ last, (hearings id t.thresholds before).getLast? = some last ∧ since = UInt32.ofNat last
  | .absent id since dwell =>
    ∃ last e, (hearings id t.thresholds before).getLast? = some last ∧ since = UInt32.ofNat last ∧
      t.DetectedAt id before e ∧ e.second ≤ last ∧ dwell.toNat = last - e.second

variable {t : Tracker buckets records} {id : NodeId} {diary before : List Entry} {e now : Entry}

theorem MadeAt.intro (hunknown : ¬t.Knows id before)
    (hheard : now.call.hears (t.run (calls before)).1.thresholds id = true)
    (hknown : t.Knows id (before ++ [now])) : t.MadeAt id (before ++ [now]) now := by
  refine ⟨before, [], rfl, hunknown, hheard, fun since hsince => ?_⟩
  rw [List.prefix_nil.mp hsince]
  exact hknown

/-- A record that survives an entry is the same one. -/
theorem MadeAt.concat (h : t.MadeAt id diary e) (hknown : t.Knows id (diary ++ [now])) :
    t.MadeAt id (diary ++ [now]) e := by
  obtain ⟨before, after, rfl, hunknown, hheard, hsince⟩ := h
  refine ⟨before, after ++ [now], List.append_assoc .., hunknown, hheard, fun since hprefix => ?_⟩
  rcases List.prefix_concat_iff.mp hprefix with rfl | hearlier
  · rwa [← List.cons_append, ← List.append_assoc]
  · exact hsince since hearlier

theorem DetectedAt.intro
    (hheard : now.call.hears (t.run (calls before)).1.thresholds id = true) {since : Tick}
    (hdetect : .detect id since ∈ ((t.run (calls before)).1.call now.call).2) :
    t.DetectedAt id (before ++ [now]) now :=
  ⟨before, [], rfl, hheard, ⟨since, hdetect⟩, fun _ hevent => absurd hevent List.not_mem_nil⟩

/-- An entry that brings no events about a peer but leaves does not close its presence. -/
theorem DetectedAt.concat (h : t.DetectedAt id diary e)
    (hleaves : ∀ event ∈ ((t.run (calls diary)).1.call now.call).2.filter (Event.isAbout id),
      event.kind = .leave) : t.DetectedAt id (diary ++ [now]) e := by
  obtain ⟨before, after, rfl, hheard, hdetect, hsince⟩ := h
  refine ⟨before, after ++ [now], List.append_assoc .., hheard, hdetect, fun event hevent => ?_⟩
  have hcalls : calls (after ++ [now]) = calls after ++ [now.call] := calls_append after [now]
  rw [hcalls, eventsAbout_run_concat] at hevent
  rcases List.mem_append.mp hevent with hold | hnew
  · exact hsince event hold
  · refine hleaves event ?_
    rwa [List.append_cons, calls_append, run_append]

theorem DetectedAt.mem (h : t.DetectedAt id diary e) : e ∈ diary := by
  obtain ⟨before, after, rfl, -⟩ := h
  exact List.mem_append_right _ List.mem_cons_self

/-! ## What is recalled of a peer -/

/-- What an entry does to a peer, together with what the tracker shows of it. -/
structure Passage (t : Tracker buckets records) (id : NodeId) (before : List Entry) (now : Entry)
    (heard swept : List Nat) (p? : Option Peer) (events : List Event) (q? : Option Peer) :
    Prop where
  incident :
    Peer.Incident (t.run (calls before)).1.thresholds id now.second heard swept p? events q?
  hearings_eq : hearings id (t.run (calls before)).1.thresholds [now] = heard
  events_eq : ((t.run (calls before)).1.call now.call).2.filter (Event.isAbout id) = events
  knows_before : t.Knows id before ↔ p?.isSome
  knows_after : t.Knows id (before ++ [now]) ↔ q?.isSome

section Passage

variable {heard swept : List Nat} {p? q? : Option Peer} {p q : Peer} {events : List Event}
  {last : Nat}

theorem Passage.hearings_concat (h : t.Passage id before now heard swept p? events q?) :
    hearings id t.thresholds (before ++ [now]) = hearings id t.thresholds before ++ heard := by
  rw [hearings_append, ← thresholds_run, h.hearings_eq]

/-- An entry that adds to the seconds in which a peer was heard is a reception from the peer. -/
theorem Passage.hears (h : t.Passage id before now [now.second] swept p? events q?) :
    now.call.hears (t.run (calls before)).1.thresholds id = true := by
  have hheard := h.hearings_eq
  by_contra hunheard
  rw [hearings, if_neg hunheard] at hheard
  cases hheard

/-- A peer that was last heard in the second `last` has the readings that it should. -/
structure Recalls (t : Tracker buckets records) (id : NodeId) (diary : List Entry) (last : Nat)
    (p : Peer) : Prop where
  hearings_eq : (hearings id t.thresholds diary).getLast? = some last
  last_eq : p.last = UInt32.ofNat last
  made : ∀ first ∈ p.first?, ∃ e, t.MadeAt id diary e ∧ first = e.tick
  detected : ∀ detectedAt ∈ p.detectedAt?, ∃ e, t.DetectedAt id diary e ∧ detectedAt = e.tick ∧
    e.second ≤ last

namespace Recalls

/-- An entry that leaves the readings alone. -/
theorem keep (h : t.Recalls id before last p)
    (passage : t.Passage id before now [] swept (some p) events (some q))
    (hleaves : ∀ event ∈ events, event.kind = .leave) (hlast : q.last = p.last)
    (hfirst : q.first? = p.first?) (hdetected : q.detectedAt? = p.detectedAt?) :
    t.Recalls id (before ++ [now]) last q where
  hearings_eq := by
    rw [passage.hearings_concat, List.append_nil]
    exact h.hearings_eq
  last_eq := hlast.trans h.last_eq
  made first hmem := by
    obtain ⟨e, hmade, heq⟩ := h.made first (hfirst ▸ hmem)
    exact ⟨e, hmade.concat (passage.knows_after.mpr rfl), heq⟩
  detected detectedAt hmem := by
    obtain ⟨e, hopened, heq, hle⟩ := h.detected detectedAt (hdetected ▸ hmem)
    exact ⟨e, hopened.concat (passage.events_eq ▸ hleaves), heq, hle⟩

section Incident

variable (known : ∀ p ∈ p?, ∃ last, t.Recalls id before last p)
  (hrecent : Recent now.second (hearings id t.thresholds before) (sweeps before))
include known hrecent

/-- The readings of a peer that is heard, taken to be nearing if it is new. -/
theorem of_heard
    (passage : t.Passage id before now [now.second] swept p? events (some q)) :
    Peer.later (p?.getD (.nearing now.tick now.tick)).last now.tick = now.tick ∧
      (∀ first ∈ (p?.getD (.nearing now.tick now.tick)).first?,
        ∃ e, t.MadeAt id (before ++ [now]) e ∧ first = e.tick) ∧
      ∀ detectedAt ∈ (p?.getD (.nearing now.tick now.tick)).detectedAt?,
        ∃ e, t.DetectedAt id before e ∧ detectedAt = e.tick ∧ e.second ≤ now.second := by
  have hknown := passage.knows_after.mpr rfl
  cases p? with
  | none =>
    have hunknown : ¬t.Knows id before := fun h => Bool.noConfusion (passage.knows_before.mp h)
    refine ⟨if_pos (Tick.elapsed_self _), fun first hfirst => ?_, nofun⟩
    exact ⟨now, .intro hunknown passage.hears hknown, (Option.some.inj hfirst).symm⟩
  | some p =>
    obtain ⟨last, h⟩ := known p rfl
    refine ⟨?_, fun first hfirst => ?_, fun detectedAt hdetected => ?_⟩
    · rw [Option.getD_some, h.last_eq]
      exact Vigil.later_eq hrecent h.hearings_eq
    · obtain ⟨e, hmade, heq⟩ := h.made first hfirst
      exact ⟨e, hmade.concat hknown, heq⟩
    · obtain ⟨e, hopened, heq, hle⟩ := h.detected detectedAt hdetected
      have hlast := hrecent.heard_le last (List.mem_of_getLast? h.hearings_eq)
      exact ⟨e, hopened, heq, hle.trans hlast⟩

/-- Hearing a peer leaves it with the readings that it should have. -/
theorem hear {detectAfter : UInt32}
    (passage : t.Passage id before now [now.second] swept p?
      ((p?.getD (.nearing now.tick now.tick)).hearEvent detectAfter now.tick id).toList
      (some ((p?.getD (.nearing now.tick now.tick)).hear detectAfter now.tick))) :
    t.Recalls id (before ++ [now]) now.second
      ((p?.getD (.nearing now.tick now.tick)).hear detectAfter now.tick) := by
  obtain ⟨hlater, hmade, hdetected⟩ := of_heard known hrecent passage
  refine ⟨?_, ?_, fun first hfirst => ?_, fun detectedAt hsince => ?_⟩
  · rw [passage.hearings_concat, List.getLast?_concat]
  · rw [Peer.last_hear, hlater]
    rfl
  · exact hmade first (Peer.first?_of_hear hfirst)
  · have hevents := passage.events_eq
    -- Either the peer was detected before, and nothing is said of it, or it is detected now.
    rcases Peer.detectedAt?_of_hear hsince id with hold | ⟨rfl, since, hevent⟩
    · obtain ⟨e, hopened, heq, hle⟩ := hdetected detectedAt hold
      rw [(Peer.hear_of_detected hold id).2] at hevents
      exact ⟨e, hopened.concat (hevents ▸ nofun), heq, hle⟩
    · rw [hevent] at hevents
      have hmem : .detect id since ∈
          ((t.run (calls before)).1.call now.call).2.filter (Event.isAbout id) := by
        rw [hevents]
        exact List.mem_singleton_self _
      exact ⟨now, .intro passage.hears (List.mem_filter.mp hmem).1, hlater, Nat.le_refl _⟩

/-- Each incident leaves a peer with the readings that it should have. -/
theorem incident (passage : t.Passage id before now heard swept p? events q?) :
    ∀ q ∈ q?, ∃ last, t.Recalls id (before ++ [now]) last q := by
  cases passage.incident with
  | pass =>
    intro q hq
    obtain rfl := Option.mem_def.mp hq
    obtain ⟨last, h⟩ := known q rfl
    exact ⟨last, h.keep passage nofun rfl rfl rfl⟩
  | refuse => exact nofun
  | hear =>
    intro q hq
    obtain rfl := Option.some.inj hq
    exact ⟨now.second, hear known hrecent passage⟩
  | age =>
    intro q hq
    obtain ⟨p, hp, hage⟩ := Option.bind_eq_some_iff.mp hq
    obtain rfl := hp
    obtain ⟨last, h⟩ := known p rfl
    obtain ⟨hfirst, hdetected, hleaves⟩ := Peer.keeps_of_age hage id
    rw [Option.bind_some, Option.bind_some, hage] at passage
    refine ⟨last, h.keep passage (fun event hevent => ?_) (Peer.last_of_age hage) hfirst hdetected⟩
    exact hleaves event (Option.mem_toList.mp hevent)

/-- The events at an entry are truthful. -/
theorem truthful (hwithin : ∀ e ∈ before, now.second < e.second + 2 ^ 31)
    (passage : t.Passage id before now heard swept p? events q?) :
    ∀ event ∈ events, t.Truthful before now event := by
  cases passage.incident with
  | pass => exact nofun
  | refuse => exact nofun
  | hear =>
    intro event hevent
    obtain ⟨-, hmade, -⟩ := of_heard known hrecent passage
    obtain ⟨first, hfirst, rfl⟩ := Peer.exists_first_of_hearEvent (Option.mem_toList.mp hevent)
    exact hmade first hfirst
  | age =>
    intro event hevent
    obtain ⟨p, rfl, hdue⟩ := Option.bind_eq_some_iff.mp (Option.mem_toList.mp hevent)
    obtain ⟨last, h⟩ := known p rfl
    rcases Peer.due_cases hdue with rfl | ⟨detectedAt, hsince, rfl⟩
    · exact ⟨last, h.hearings_eq, h.last_eq⟩
    · obtain ⟨e, hopened, rfl, hle⟩ := h.detected detectedAt hsince
      have hlast := hrecent.heard_le last (List.mem_of_getLast? h.hearings_eq)
      have hnow := hwithin e hopened.mem
      refine ⟨last, e, h.hearings_eq, h.last_eq, hopened, hle, ?_⟩
      rw [h.last_eq]
      exact Tick.toNat_elapsed_ofNat hle (by omega)

end Incident

end Recalls

end Passage

/-! ## Runs over a diary -/

theorem Mirrors.knows_iff {c : Census} (h : (t.run (calls diary)).1.Mirrors c) (id : NodeId) :
    t.Knows id diary ↔ (c.peers.get? id).isSome := by
  rw [Knows, Roster.contains_eq_isSome_get?, h.holds.get?_eq, Option.isSome_map]

/-- Every entry is a passage of each peer. -/
theorem Mirrors.exists_passage {c : Census} (h : (t.run (calls before)).1.Mirrors c) (id : NodeId)
    (now : Entry) :
    ∃ d, (t.run (calls (before ++ [now]))).1.Mirrors d ∧ ∃ heard swept,
      t.Passage id before now heard swept (c.peers.get? id)
        (((t.run (calls before)).1.call now.call).2.filter (Event.isAbout id))
        (d.peers.get? id) := by
  obtain ⟨d, hstep, hd⟩ := h.exists_step now.call
  have hrun : (t.run (calls (before ++ [now]))).1 = ((t.run (calls before)).1.call now.call).1 := by
    rw [calls_append, run_append]
    rfl
  have hmirrors : (t.run (calls (before ++ [now]))).1.Mirrors d := hrun ▸ hd
  have hincident := (hstep.turn id).incident
  rw [← h.thresholds_eq] at hincident
  exact ⟨d, hmirrors, _, _, hincident, rfl, rfl, h.knows_iff id, hmirrors.knows_iff id⟩

/-- A tracker recalls every peer that it knows. -/
theorem exists_recalls (buckets records : Nat) (limits : Thresholds) (id : NodeId)
    (diary : List Entry) (h : InOrder diary) :
    ∃ c, ((start buckets records limits).run (calls diary)).1.Mirrors c ∧
      ∀ p ∈ c.peers.get? id, ∃ last, (start buckets records limits).Recalls id diary last p := by
  induction diary using List.reverseRecOn with
  | nil => exact ⟨.start limits, .start buckets records limits, nofun⟩
  | append_singleton before now ih =>
    obtain ⟨c, hc, hknown⟩ := ih h.left
    obtain ⟨d, hd, heard, swept, hpassage⟩ := hc.exists_passage id now
    exact ⟨d, hd, Recalls.incident hknown (h.recent id limits) hpassage⟩

/-- **Events are truthful.**  Whatever the thresholds are, and wherever an entry stands in a diary
that is kept in order and covers less than half the range of the clock, the events that it brings
bear the readings that they should. -/
theorem run_truthful (buckets records : Nat) (limits : Thresholds) {before after : List Entry}
    {now : Entry} (order : InOrder (before ++ now :: after)) :
    ∀ event ∈ (((start buckets records limits).run (calls before)).1.call now.call).2,
      (start buckets records limits).Truthful before now event := by
  intro event hevent
  obtain ⟨c, hc, hknown⟩ := exists_recalls buckets records limits event.id before order.left
  obtain ⟨d, -, heard, swept, hpassage⟩ := hc.exists_passage event.id now
  exact Recalls.truthful hknown (order.recent event.id limits) (fun e he => (order.before_le he).2)
    hpassage event (List.mem_filter.mpr ⟨hevent, beq_self_eq_true event.id⟩)

/-- Thresholds by which a peer is detected after two seconds. -/
def livelyLimits : Thresholds :=
  { detectAfter := 2, absentAfter := 4, shortTimeout := 2, leaveGrace := 1 }

/-- A peer is forgotten once, and detected when it has come again; it leaves and returns.  The clock
rolls over in between. -/
def revisit : List Entry :=
  [⟨4294967290, .receive 7 (-50)⟩, ⟨4294967293, .sweep⟩, ⟨4294967293, .receive 9 (-50)⟩,
    ⟨4294967294, .receive 7 (-50)⟩, ⟨4294967295, .setMinRssi (-60)⟩,
    ⟨4294967296, .receive 7 (-55)⟩, ⟨4294967297, .receive 7 (-70)⟩, ⟨4294967298, .sweep⟩,
    ⟨4294967299, .receive 7 (-55)⟩]

/-- The sweep that finds the peer absent. -/
def parting : Entry :=
  ⟨4294967303, .sweep⟩

theorem run_truthful_revisit :
    InOrder (revisit ++ parting :: []) ∧
      ∀ event ∈ (((start 4 2 livelyLimits).run (calls revisit)).1.call parting.call).2,
        (start 4 2 livelyLimits).Truthful revisit parting event := by
  have order : InOrder (revisit ++ parting :: []) := ⟨by decide, by decide⟩
  exact ⟨order, run_truthful 4 2 livelyLimits order⟩

/-- The dwell runs from the reception in the second `4294967296` to that in `4294967299`. -/
example :
    eventsAbout 7 ((start 4 2 livelyLimits).run (calls (revisit ++ [parting]))).2 =
      [.detect 7 4294967294, .leave 7 0, .absent 7 3 3] := by
  decide

end Tracker

end PeerBeacon
