import PeerBeacon.Proofs.Tracker.Provenance
import PeerBeacon.Settings.Fault

/-!
# Receptions out of order

A reception may be taken in late, after one that was later or after a sweep.  As long as all
readings are less than half the range of the clock apart (`Tracker.Close`), such a straggler does
not pass for the latest reception of its peer (`Tick.latest_ofNat_max`).

It has another effect, though.  It brings back a peer that is leaving, and so the next sweep may
report once more that the peer has left, at the same reading as before (`Tracker.leave_repeated`).
What holds of two leaves of a peer that was not absent in between is that their readings come in
order, and differ if and only if the peer was heard in between later than at the first of them
(`Tracker.run_leaves_ordered`).
-/

namespace PeerBeacon

/-! ## The latest of some seconds -/

theorem le_foldl_max (l : List Nat) : ∀ s, s ≤ l.foldl max s := by
  induction l with
  | nil => exact Nat.le_refl
  | cons x l ih => exact fun s => (Nat.le_max_left s x).trans (ih (max s x))

theorem lt_foldl_max_iff {a : Nat} (l : List Nat) :
    ∀ s, a < l.foldl max s ↔ a < s ∨ ∃ x ∈ l, a < x := by
  induction l with
  | nil => exact fun s => ⟨.inl, fun h => h.resolve_right nofun⟩
  | cons x l ih =>
    intro s
    rw [List.foldl_cons, ih, lt_max_iff, List.exists_mem_cons_iff, or_assoc]

theorem foldl_max_mem (l : List Nat) : ∀ s, l.foldl max s ∈ s :: l := by
  induction l with
  | nil => exact fun s => List.mem_singleton_self s
  | cons x l ih =>
    intro s
    rcases List.mem_cons.mp (ih (max s x)) with hfirst | hrest
    · rcases max_choice s x with hold | hnew
      · exact List.mem_cons.mpr (.inl (hfirst.trans hold))
      · exact List.mem_cons_of_mem s (List.mem_cons.mpr (.inl (hfirst.trans hnew)))
    · exact List.mem_cons_of_mem s (List.mem_cons_of_mem x hrest)

/-! ## Detected peers -/

namespace Peer

variable {limits : Thresholds} {now : Tick} {p : Peer}

/-- A detected peer of which a sweep leaves nothing is reported as absent. -/
theorem exists_absent_of_age {detectedAt : Tick} (hdetected : detectedAt ∈ p.detectedAt?)
    (h : p.age limits now = none) (id : NodeId) :
    ∃ event ∈ p.due limits now id, event.kind = .absent := by
  cases p with
  | nearing first last => cases hdetected
  | present last d =>
    rw [age] at h
    rw [due]
    split_ifs at h ⊢
    exact ⟨_, rfl, rfl⟩
  | leaving quietSince last d =>
    rw [age] at h
    rw [due]
    split_ifs at h ⊢
    exact ⟨_, rfl, rfl⟩

/-- A peer that is reported as leaving was detected, and a sweep leaves something of it. -/
theorem exists_of_leave {id : NodeId} {since : Tick}
    (h : p.due limits now id = some (.leave id since)) :
    since = p.last ∧ (∃ detectedAt, detectedAt ∈ p.detectedAt?) ∧
      ∃ q, p.age limits now = some q := by
  cases p with
  | nearing first last => cases h
  | present last d =>
    rw [due] at h
    rw [age]
    split_ifs at h ⊢ <;> cases h
    exact ⟨rfl, ⟨d, rfl⟩, _, rfl⟩
  | leaving quietSince last d =>
    rw [due] at h
    split_ifs at h
    cases h

end Peer

namespace Tracker

variable {buckets records : Nat} {t : Tracker buckets records} {id : NodeId}
  {diary before between after : List Entry} {now first second : Entry}

/-- A diary in any order in which all entries are less than half the range of the clock apart. -/
def Close (diary : List Entry) : Prop :=
  ∀ e ∈ diary, ∀ e' ∈ diary, e'.second < e.second + 2 ^ 31

instance (diary : List Entry) : Decidable (Close diary) :=
  inferInstanceAs (Decidable (∀ e ∈ diary, ∀ e' ∈ diary, e'.second < e.second + 2 ^ 31))

namespace Passage

variable {heard swept : List Nat} {p? q? : Option Peer} {p q : Peer} {events : List Event}
  {s : Nat} {detectedAt : Tick}

/-- A leave bears the second in which the peer was last heard, and leaves the peer detected. -/
theorem exists_of_leave (h : t.Passage id before now heard swept p? events q?) {since : Tick}
    (hleave : .leave id since ∈ events) :
    ∃ p ∈ p?, since = p.last ∧ ∃ q ∈ q?, q.last = p.last ∧ ∃ d, d ∈ q.detectedAt? := by
  cases h.incident with
  | pass => cases hleave
  | refuse => cases hleave
  | hear =>
    obtain ⟨first, -, hevent⟩ := Peer.exists_first_of_hearEvent (Option.mem_toList.mp hleave)
    cases hevent
  | age =>
    obtain ⟨p, rfl, hdue⟩ := Option.bind_eq_some_iff.mp (Option.mem_toList.mp hleave)
    obtain ⟨hsince, ⟨d, hd⟩, q, hage⟩ := Peer.exists_of_leave hdue
    obtain ⟨-, hdetected, -⟩ := Peer.keeps_of_age hage id
    exact ⟨p, rfl, hsince, q, hage, Peer.last_of_age hage, d, hdetected ▸ hd⟩

/-- A peer that is not reported as absent stays detected, and is last heard at the latest of its
receptions. -/
theorem detected (h : t.Passage id before now heard swept (some p) events q?)
    (hdetected : detectedAt ∈ p.detectedAt?) (hlast : p.last = UInt32.ofNat s)
    (hs : s < now.second + 2 ^ 31) (hnow : now.second < s + 2 ^ 31)
    (stays : ∀ event ∈ events, event.kind ≠ .absent) :
    ∃ q ∈ q?, detectedAt ∈ q.detectedAt? ∧ q.last = UInt32.ofNat (heard.foldl max s) := by
  cases h.incident with
  | pass => exact ⟨p, rfl, hdetected, hlast⟩
  | hear =>
    refine ⟨_, rfl, ?_, ?_⟩
    · rw [Option.getD_some, (Peer.hear_of_detected hdetected id).1]
      rfl
    · rw [Option.getD_some, Peer.last_hear, hlast]
      exact Tick.latest_ofNat_max hs hnow
  | age =>
    rw [Option.bind_some] at stays
    cases hage : p.age (t.run (calls before)).1.thresholds (UInt32.ofNat now.second) with
    | none =>
      obtain ⟨event, hevent, habsent⟩ := Peer.exists_absent_of_age hdetected hage id
      exact absurd habsent (stays event (Option.mem_toList.mpr hevent))
    | some q =>
      obtain ⟨-, hsame, -⟩ := Peer.keeps_of_age hage id
      exact ⟨q, hage, hsame ▸ hdetected, (Peer.last_of_age hage).trans hlast⟩

/-- A known peer was last heard in one of the seconds in which it was heard. -/
theorem last_mem {l : List Nat} (h : t.Passage id before now heard swept p? events q?)
    (known : ∀ p ∈ p?, ∃ s ∈ l, p.last = UInt32.ofNat s)
    (close : ∀ s ∈ l, s < now.second + 2 ^ 31 ∧ now.second < s + 2 ^ 31) :
    ∀ q ∈ q?, ∃ s ∈ l ++ heard, q.last = UInt32.ofNat s := by
  cases h.incident with
  | pass =>
    rw [List.append_nil]
    exact known
  | refuse => exact nofun
  | hear =>
    intro q hq
    obtain rfl := Option.some.inj hq
    rw [Peer.last_hear]
    cases p? with
    | none =>
      exact ⟨now.second, List.mem_append_right _ (List.mem_singleton_self _),
        if_pos (Tick.elapsed_self _)⟩
    | some p =>
      obtain ⟨s, hs, hlast⟩ := known p rfl
      have hlatest : Peer.later p.last (UInt32.ofNat now.second) =
          UInt32.ofNat (max s now.second) := by
        rw [hlast]
        exact Tick.latest_ofNat_max (close s hs).1 (close s hs).2
      refine ⟨max s now.second, ?_, hlatest⟩
      rcases max_choice s now.second with hold | hnew
      · rw [hold]
        exact List.mem_append_left _ hs
      · rw [hnew]
        exact List.mem_append_right _ (List.mem_singleton_self _)
  | age =>
    intro q hq
    obtain ⟨p, rfl, hage⟩ := Option.bind_eq_some_iff.mp hq
    rw [List.append_nil, Peer.last_of_age hage]
    exact known p rfl

end Passage

/-! ## Runs over a diary in any order -/

theorem Close.left (h : Close (before ++ after)) : Close before :=
  fun e he e' he' => h e (List.mem_append_left _ he) e' (List.mem_append_left _ he')

/-- A last entry is close to the seconds in which a peer was heard before. -/
theorem Close.near (h : Close (before ++ [now])) {limits : Thresholds} {s : Nat}
    (hs : s ∈ hearings id limits before) :
    s < now.second + 2 ^ 31 ∧ now.second < s + 2 ^ 31 := by
  obtain ⟨e, he, rfl⟩ := exists_of_mem_hearings hs
  have hold := List.mem_append_left [now] he
  have hnow := List.mem_append_right before (List.mem_singleton_self now)
  exact ⟨h now hnow e hold, h e hold now hnow⟩

/-- A tracker takes every peer to be last heard in one of the seconds in which it was heard. -/
theorem exists_last_mem (buckets records : Nat) (limits : Thresholds) (id : NodeId)
    (diary : List Entry) (h : Close diary) :
    ∃ c, ((start buckets records limits).run (calls diary)).1.Mirrors c ∧
      ∀ p ∈ c.peers.get? id, ∃ s ∈ hearings id limits diary, p.last = UInt32.ofNat s := by
  induction diary using List.reverseRecOn with
  | nil => exact ⟨.start limits, .start buckets records limits, nofun⟩
  | append_singleton before now ih =>
    obtain ⟨c, hc, hknown⟩ := ih h.left
    obtain ⟨d, hd, heard, swept, hpassage⟩ := hc.exists_passage id now
    have hconcat : hearings id limits (before ++ [now]) = hearings id limits before ++ heard :=
      hpassage.hearings_concat
    exact ⟨d, hd, hconcat ▸ hpassage.last_mem hknown fun s hs => h.near hs⟩

/-- As long as it is not reported as absent, a detected peer stays detected, and is last heard at
the latest of its receptions. -/
theorem exists_detected {c : Census} {p : Peer} {s : Nat} {detectedAt : Tick}
    (h : Close (diary ++ between)) (hc : (t.run (calls diary)).1.Mirrors c)
    (hp : p ∈ c.peers.get? id) (hdetected : detectedAt ∈ p.detectedAt?)
    (hs : s ∈ hearings id t.thresholds diary) (hlast : p.last = UInt32.ofNat s)
    (stays : ∀ event ∈ eventsAbout id ((t.run (calls diary)).1.run (calls between)).2,
      event.kind ≠ .absent) :
    ∃ d, (t.run (calls (diary ++ between))).1.Mirrors d ∧ ∃ q ∈ d.peers.get? id,
      detectedAt ∈ q.detectedAt? ∧ q.last = UInt32.ofNat
        ((hearings id (t.run (calls diary)).1.thresholds between).foldl max s) := by
  induction between using List.reverseRecOn with
  | nil =>
    rw [List.append_nil]
    exact ⟨c, hc, p, hp, hdetected, hlast⟩
  | append_singleton front now ih =>
    have hcalls : calls (front ++ [now]) = calls front ++ [now.call] := calls_append front [now]
    have hrun : (t.run (calls (diary ++ front))).1 =
        ((t.run (calls diary)).1.run (calls front)).1 := by
      rw [calls_append, run_append]
    rw [← List.append_assoc] at h
    rw [hcalls, eventsAbout_run_concat, ← hrun] at stays
    obtain ⟨d, hd, q, hq, hqdetected, hqlast⟩ := ih h.left fun event hevent =>
      stays event (List.mem_append_left _ hevent)
    obtain ⟨d', hd', heard, swept, hpassage⟩ := hd.exists_passage id now
    rw [Option.mem_def.mp hq] at hpassage
    -- The latest reception so far is one of the diary, so it is close to this entry.
    have hmem : (hearings id (t.run (calls diary)).1.thresholds front).foldl max s ∈
        hearings id t.thresholds (diary ++ front) := by
      rw [hearings_append, ← thresholds_run]
      rcases List.mem_cons.mp (foldl_max_mem _ s) with hold | hnew
      · rw [hold]
        exact List.mem_append_left _ hs
      · exact List.mem_append_right _ hnew
    obtain ⟨hle, hlt⟩ := h.near hmem
    obtain ⟨q', hq', hdetected', hlast'⟩ := hpassage.detected hqdetected hqlast hle hlt
      fun event hevent => stays event (List.mem_append_right _ hevent)
    refine ⟨d', List.append_assoc diary front [now] ▸ hd', q', hq', hdetected', ?_⟩
    rw [hlast', hearings_append, ← thresholds_run, ← hrun, hpassage.hearings_eq,
      List.foldl_append]

/-- **Leaves come in order.**  Whatever the thresholds are, and in whatever order receptions are
taken in, two leaves of a peer that was not reported as absent in between bear seconds in which it
was heard, the former no later than the latter.  They differ if and only if the peer was heard in
between later than at the former. -/
theorem run_leaves_ordered (buckets records : Nat) (limits : Thresholds)
    (close : Close (before ++ first :: between)) {since since' : Tick}
    (left : .leave id since ∈
      (((start buckets records limits).run (calls before)).1.call first.call).2)
    (again : .leave id since' ∈
      (((start buckets records limits).run (calls (before ++ first :: between))).1.call
        second.call).2)
    (stays : ∀ event ∈ eventsAbout id
      (((start buckets records limits).run (calls (before ++ [first]))).1.run (calls between)).2,
      event.kind ≠ .absent) :
    ∃ earlier later, since = UInt32.ofNat earlier ∧ since' = UInt32.ofNat later ∧
      earlier ∈ hearings id limits before ∧
      later ∈ hearings id limits (before ++ first :: between) ∧ earlier ≤ later ∧
      (earlier < later ↔
        ∃ x ∈ hearings id (adjusted limits (calls (before ++ [first]))) between, earlier < x) := by
  rw [List.append_cons] at close again
  obtain ⟨c, hc, hknown⟩ := exists_last_mem buckets records limits id before close.left.left
  obtain ⟨d, hd, heard, swept, hpassage⟩ := hc.exists_passage id first
  obtain ⟨p, hp, hsince, q, hq, hlast, detectedAt, hdetected⟩ :=
    hpassage.exists_of_leave (List.mem_filter.mpr ⟨left, beq_self_eq_true id⟩)
  obtain ⟨earlier, hearlier, hfirst⟩ := hknown p hp
  have hmem : earlier ∈ hearings id limits (before ++ [first]) := by
    rw [hearings_append]
    exact List.mem_append_left _ hearlier
  obtain ⟨d', hd', q', hq', -, hlast'⟩ :=
    exists_detected close hd hq hdetected hmem (hlast.trans hfirst) stays
  obtain ⟨d'', -, heard', swept', hpassage'⟩ := hd'.exists_passage id second
  obtain ⟨p', hp', hsince', -⟩ :=
    hpassage'.exists_of_leave (List.mem_filter.mpr ⟨again, beq_self_eq_true id⟩)
  obtain rfl := Option.some.inj (hq'.symm.trans hp')
  have hthresholds : ((start buckets records limits).run (calls (before ++ [first]))).1.thresholds =
      adjusted limits (calls (before ++ [first])) := thresholds_run _ _
  rw [hthresholds] at hlast'
  refine ⟨earlier, _, hsince.trans hfirst, hsince'.trans hlast', hearlier, ?_, le_foldl_max _ _,
    (lt_foldl_max_iff _ _).trans (or_iff_right (Nat.lt_irrefl earlier))⟩
  rw [List.append_cons, hearings_append]
  refine (List.mem_cons.mp (foldl_max_mem _ earlier)).elim (fun hold => ?_)
    (List.mem_append_right _)
  rw [hold]
  exact List.mem_append_left _ hmem

/-- A peer is heard until it is detected, and then no more. -/
def stay : List Entry :=
  [⟨0, .receive 7 (-50)⟩, ⟨15, .receive 7 (-50)⟩]

/-- A sweep finds the peer quiet, and a reception from before is taken in after it. -/
def straggling : List Entry :=
  stay ++ ⟨19, .sweep⟩ :: [⟨14, .receive 7 (-50)⟩]

theorem run_leaves_ordered_straggling :
    Close straggling ∧
      .leave 7 15 ∈ (((start 4 2 {}).run (calls stay)).1.call (Entry.call ⟨19, .sweep⟩)).2 ∧
      .leave 7 15 ∈ (((start 4 2 {}).run (calls straggling)).1.call (Entry.call ⟨20, .sweep⟩)).2 ∧
      ∃ earlier later, (15 : Tick) = UInt32.ofNat earlier ∧ (15 : Tick) = UInt32.ofNat later ∧
        earlier ∈ hearings 7 {} stay ∧ later ∈ hearings 7 {} straggling ∧ earlier ≤ later ∧
        (earlier < later ↔ ∃ x ∈ hearings 7 (adjusted {} (calls (stay ++ [⟨19, .sweep⟩])))
          [⟨14, .receive 7 (-50)⟩], earlier < x) := by
  have close : Close straggling := by decide
  have left : .leave 7 15 ∈
      (((start 4 2 {}).run (calls stay)).1.call (Entry.call ⟨19, .sweep⟩)).2 := by decide
  have again : .leave 7 15 ∈
      (((start 4 2 {}).run (calls straggling)).1.call (Entry.call ⟨20, .sweep⟩)).2 := by decide
  exact ⟨close, left, again, run_leaves_ordered 4 2 {} close left again (by decide)⟩

/-- With the default thresholds the straggler brings the peer back, and the peer leaves once more at
the same reading. -/
theorem leave_repeated :
    Thresholds.check {} = .ok () ∧ ({} : Thresholds).leaveGrace ≠ 0 ∧
      Close (straggling ++ [⟨20, .sweep⟩]) ∧
      eventsAbout 7 ((start 4 2 {}).run (calls (straggling ++ [⟨20, .sweep⟩]))).2 =
        [.detect 7 0, .leave 7 15, .leave 7 15] := by
  decide

end Tracker

end PeerBeacon
