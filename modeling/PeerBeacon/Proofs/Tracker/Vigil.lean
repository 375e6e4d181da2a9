import Mathlib.Data.List.Infix
import Mathlib.Data.List.Induction
import PeerBeacon.Proofs.Tracker.Diary

/-!
# Vigils

A reception never looks back at the silence that it ends; only a sweep does.  So what a tracker
knows of a peer says something about the past only together with the sweeps that there were.
`Vigil` is what it says: the record of a peer has the seconds in which the peer was heard first and
last, and no sweep since then came when it would have changed the record.  Each turn of a peer keeps
the vigil (`Vigil.turn`).

Over a regular diary a silence of some length is sure to meet a sweep, and the vigil gives bounds in
both directions.  A peer is detected only after a run of receptions without long gaps
(`Tracker.run_detect_sustained`), and it is absent soon after it has been silent for long enough,
having left before (`Tracker.run_absent_timely`).
-/

namespace PeerBeacon

/-- Neighbours in a list that is put together from two are neighbours in one of them, unless the
former is the last of the first list and the latter is in the second. -/
theorem pair_infix_append {α : Type u} {a b : α} {l l' : List α} (h : [a, b] <:+: l ++ l') :
    [a, b] <:+: l ∨ [a, b] <:+: l' ∨ l.getLast? = some a ∧ b ∈ l' := by
  rcases List.infix_append_iff.mp h with hfirst | hsecond | ⟨front, back, heq, hfront, hback⟩
  · exact .inl hfirst
  · exact .inr (.inl hsecond)
  · rcases List.cons_eq_append_iff.mp heq with ⟨rfl, rfl⟩ | ⟨front, rfl, hrest⟩
    · exact .inr (.inl hback.isInfix)
    · rcases List.cons_eq_append_iff.mp hrest with ⟨rfl, rfl⟩ | ⟨front, rfl, hnil⟩
      · exact .inr (.inr ⟨List.singleton_suffix_iff_getLast?_eq_some.mp hfront,
          hback.mem List.mem_cons_self⟩)
      · obtain ⟨rfl, rfl⟩ := List.append_eq_nil_iff.mp hnil.symm
        exact .inl hfront.isInfix

/-! ## Silences that no sweep found -/

section Silence

variable {limit : UInt32} {heard swept : List Nat} {first last now : Nat}

/-- No sweep found a silence since the second `last` that was as long as `limit`. -/
def Unnoticed (limit : UInt32) (last : Nat) (swept : List Nat) : Prop :=
  ∀ s ∈ swept, last < s → s < last + limit.toNat

/-- No sweep found a silence as long as `limit` between two receptions on end, from the second
`first` on. -/
def Unbroken (limit : UInt32) (first : Nat) (heard swept : List Nat) : Prop :=
  ∀ a b, [a, b] <:+: heard → first ≤ a → ∀ s ∈ swept, a < s → s < b → s < a + limit.toNat

/-- Everything so far happened by the second `now`, and the receptions not too long ago. -/
structure Recent (now : Nat) (heard swept : List Nat) : Prop where
  heard_le : ∀ x ∈ heard, x ≤ now
  heard_within : ∀ x ∈ heard, now < x + 2 ^ 31
  swept_le : ∀ s ∈ swept, s ≤ now

/-- The silence that begins now has not been swept yet. -/
theorem Recent.unnoticed (h : Recent now heard swept) : Unnoticed limit now swept := by
  intro s hs hlt
  have hle := h.swept_le s hs
  omega

theorem Unnoticed.sweep (h : Unnoticed limit last swept) (hnow : now < last + limit.toNat) :
    Unnoticed limit last (swept ++ [now]) := by
  intro s hs hlt
  rcases List.mem_append.mp hs with hold | hnew
  · exact h s hold hlt
  · rwa [List.mem_singleton.mp hnew]

/-- A run of receptions that begins now is not broken. -/
theorem Recent.unbroken (h : Recent now heard swept) :
    Unbroken limit now (heard ++ [now]) swept := by
  intro a b hpair hfirst s hs hlt hbefore
  have hle := h.swept_le s hs
  omega

/-- A run goes on when the peer is heard again before a sweep finds it silent. -/
theorem Unbroken.hear (h : Unbroken limit first heard swept) (hlast : heard.getLast? = some last)
    (hunnoticed : Unnoticed limit last swept) :
    Unbroken limit first (heard ++ [now]) swept := by
  intro a b hpair hfirst s hs hlt hbefore
  rcases pair_infix_append hpair with hold | hnew | ⟨ha, -⟩
  · exact h a b hold hfirst s hs hlt hbefore
  · exact absurd hnew.length_le (Nat.not_succ_le_self 1)
  · obtain rfl := Option.some.inj (hlast.symm.trans ha)
    exact hunnoticed s hs hlt

/-- A sweep comes after all gaps between receptions. -/
theorem Unbroken.sweep (h : Unbroken limit first heard swept) (hle : ∀ x ∈ heard, x ≤ now) :
    Unbroken limit first heard (swept ++ [now]) := by
  intro a b hpair hfirst s hs hlt hbefore
  rcases List.mem_append.mp hs with hold | hnew
  · exact h a b hpair hfirst s hold hlt hbefore
  · have hb := hle b (hpair.mem (List.mem_cons_of_mem a (List.mem_singleton_self b)))
    rw [List.mem_singleton.mp hnew] at hbefore
    omega

end Silence

/-! ## What is known of a peer -/

/-- What is known of a peer after it was heard in some seconds, there were sweeps in others, and
some events were reported about it. -/
inductive Vigil (limits : Thresholds) (id : NodeId) (heard swept : List Nat)
    (events : List Event) : Option Peer → Prop where
  | unknown : Vigil limits id heard swept events none
  | nearing {first last : Nat} (first_mem : first ∈ heard) (last_eq : heard.getLast? = some last)
      (unbroken : Unbroken limits.shortTimeout first heard swept)
      (unnoticed : Unnoticed limits.shortTimeout last swept) :
      Vigil limits id heard swept events
        (some (.nearing (UInt32.ofNat first) (UInt32.ofNat last)))
  | present {last : Nat} {detectedAt : Tick} (last_eq : heard.getLast? = some last)
      (unnoticed : Unnoticed limits.leaveGrace last swept) :
      Vigil limits id heard swept events (some (.present (UInt32.ofNat last) detectedAt))
  | leaving {last : Nat} {quietSince detectedAt : Tick} (last_eq : heard.getLast? = some last)
      (unnoticed : Unnoticed limits.absentAfter last swept)
      (reported : events.getLast? = some (.leave id (UInt32.ofNat last))) :
      Vigil limits id heard swept events
        (some (.leaving quietSince (UInt32.ofNat last) detectedAt))

/-- What an entry at the second `now` does to a peer: the seconds that it adds to those in which the
peer was heard and to those of the sweeps, and the events about the peer. -/
inductive Peer.Incident (limits : Thresholds) (id : NodeId) (now : Nat) :
    List Nat → List Nat → Option Peer → List Event → Option Peer → Prop where
  | pass {p? : Option Peer} : Incident limits id now [] [] p? [] p?
  | refuse : Incident limits id now [now] [] none [] none
  | hear {p? : Option Peer} :
      Incident limits id now [now] [] p?
        ((p?.getD (.nearing (UInt32.ofNat now) (UInt32.ofNat now))).hearEvent
          limits.detectAfter (UInt32.ofNat now) id).toList
        (some ((p?.getD (.nearing (UInt32.ofNat now) (UInt32.ofNat now))).hear
          limits.detectAfter (UInt32.ofNat now)))
  | age {p? : Option Peer} :
      Incident limits id now [] [now] p? (p?.bind (Peer.due limits (UInt32.ofNat now) id)).toList
        (p?.bind (Peer.age limits (UInt32.ofNat now)))

open Tracker in
/-- Each turn is an incident. -/
theorem Peer.Turn.incident {limits : Thresholds} {id : NodeId} {e : Entry} {p? q? : Option Peer}
    {events : List Event} (h : Peer.Turn limits id e.call p? events q?) :
    Peer.Incident limits id e.second (hearings id limits [e]) (sweeps [e]) p? events q? := by
  obtain ⟨now, act⟩ := e
  cases act with
  | receive source rssi =>
    have hheard : hearings id limits [⟨now, .receive source rssi⟩] =
        if Call.hears limits id (.receive source rssi (UInt32.ofNat now)) then [now] else [] :=
      List.append_nil _
    change Peer.Turn limits id (.receive source rssi (UInt32.ofNat now)) p? events q? at h
    rw [hheard]
    cases h with
    | pass unheard unswept =>
      rw [if_neg (Bool.eq_false_iff.mp unheard)]
      exact .pass
    | refuse heard =>
      rw [if_pos heard]
      exact .refuse
    | hear hq =>
      rw [if_pos (by simp [Call.hears, hq])]
      exact .hear
  | sweep =>
    change Peer.Turn limits id (.sweep (UInt32.ofNat now)) p? events q? at h
    cases h with
    | pass unheard unswept => exact absurd rfl (unswept _)
    | refuse heard => cases heard
    | age => exact .age
  | setMinRssi minRssi =>
    change Peer.Turn limits id (.setMinRssi minRssi) p? events q? at h
    cases h with
    | pass unheard unswept => exact .pass
    | refuse heard => cases heard

namespace Vigil

variable {limits : Thresholds} {id : NodeId} {heard swept : List Nat} {events : List Event}
  {p? : Option Peer} {now : Nat}

/-- The signal threshold plays no part. -/
theorem adjust (h : Vigil limits id heard swept events p?) (call : Tracker.Call) :
    Vigil (call.adjust limits) id heard swept events p? := by
  cases call with
  | receive source rssi tick => exact h
  | sweep tick => exact h
  | setMinRssi minRssi =>
    cases h with
    | unknown => exact .unknown
    | nearing first_mem last_eq unbroken unnoticed =>
      exact .nearing first_mem last_eq unbroken unnoticed
    | present last_eq unnoticed => exact .present last_eq unnoticed
    | leaving last_eq unnoticed reported => exact .leaving last_eq unnoticed reported

/-! ### Being heard -/

/-- A reception is later than the last one. -/
theorem later_eq (hrecent : Recent now heard swept) {last : Nat}
    (hlast : heard.getLast? = some last) :
    Peer.later (UInt32.ofNat last) (UInt32.ofNat now) = UInt32.ofNat now := by
  have hmem := List.mem_of_getLast? hlast
  exact Tick.latest_ofNat (hrecent.heard_le last hmem) (hrecent.heard_within last hmem)

/-- A peer that is not detected yet, or is new, was heard without a break since it was first
heard. -/
theorem exists_first (h : Vigil limits id heard swept events p?)
    (hrecent : Recent now heard swept) {firstTick lastTick : Tick}
    (hp : p?.getD (.nearing (UInt32.ofNat now) (UInt32.ofNat now)) =
      .nearing firstTick lastTick) :
    ∃ first ∈ heard ++ [now], firstTick = UInt32.ofNat first ∧
      (first ≤ now ∧ now < first + 2 ^ 31) ∧
      Peer.later lastTick (UInt32.ofNat now) = UInt32.ofNat now ∧
      Unbroken limits.shortTimeout first (heard ++ [now]) swept := by
  cases h with
  | unknown =>
    obtain ⟨rfl, rfl⟩ := Peer.nearing.inj hp
    exact ⟨now, List.mem_append_right _ (List.mem_singleton_self now), rfl, by omega,
      if_pos (Tick.elapsed_self _), hrecent.unbroken⟩
  | @nearing first last first_mem last_eq unbroken unnoticed =>
    obtain ⟨rfl, rfl⟩ := Peer.nearing.inj hp
    exact ⟨first, List.mem_append_left _ first_mem, rfl,
      ⟨hrecent.heard_le first first_mem, hrecent.heard_within first first_mem⟩,
      later_eq hrecent last_eq, unbroken.hear last_eq unnoticed⟩
  | present last_eq unnoticed => cases hp
  | leaving last_eq unnoticed reported => cases hp

/-- Hearing the peer keeps the vigil. -/
theorem hear (h : Vigil limits id heard swept events p?) (hrecent : Recent now heard swept) :
    Vigil limits id (heard ++ [now]) swept
      (events ++ ((p?.getD (.nearing (UInt32.ofNat now) (UInt32.ofNat now))).hearEvent
        limits.detectAfter (UInt32.ofNat now) id).toList)
      (some ((p?.getD (.nearing (UInt32.ofNat now) (UInt32.ofNat now))).hear
        limits.detectAfter (UInt32.ofNat now))) := by
  cases hp : p?.getD (.nearing (UInt32.ofNat now) (UInt32.ofNat now)) with
  | nearing firstTick lastTick =>
    obtain ⟨first, hfirst, rfl, -, hlater, hunbroken⟩ := h.exists_first hrecent hp
    rw [Peer.hear, Peer.hearEvent, hlater]
    split
    · exact .present List.getLast?_concat hrecent.unnoticed
    · exact .nearing hfirst List.getLast?_concat hunbroken hrecent.unnoticed
  | present lastTick detectedAt =>
    cases h with
    | unknown => cases hp
    | nearing first_mem last_eq unbroken unnoticed => cases hp
    | present last_eq unnoticed =>
      cases hp
      rw [Peer.hear, later_eq hrecent last_eq]
      exact .present List.getLast?_concat hrecent.unnoticed
    | leaving last_eq unnoticed reported => cases hp
  | leaving quietSince lastTick detectedAt =>
    cases h with
    | unknown => cases hp
    | nearing first_mem last_eq unbroken unnoticed => cases hp
    | present last_eq unnoticed => cases hp
    | leaving last_eq unnoticed reported =>
      cases hp
      rw [Peer.hear, later_eq hrecent last_eq]
      exact .present List.getLast?_concat hrecent.unnoticed

/-! ### Being swept -/

/-- A sweep measures the silence since the last reception. -/
theorem le_elapsed_iff (hrecent : Recent now heard swept) {last : Nat}
    (hlast : heard.getLast? = some last) (limit : UInt32) :
    limit ≤ Tick.elapsed (UInt32.ofNat now) (UInt32.ofNat last) ↔ last + limit.toNat ≤ now := by
  have hmem := List.mem_of_getLast? hlast
  exact Tick.le_elapsed_ofNat_iff (hrecent.heard_le last hmem) (hrecent.heard_within last hmem)
    limit

/-- A silence that a sweep finds too short. -/
theorem lt_of_short (hrecent : Recent now heard swept) {last : Nat}
    (hlast : heard.getLast? = some last) {limit : UInt32}
    (hshort : ¬limit ≤ Tick.elapsed (UInt32.ofNat now) (UInt32.ofNat last)) :
    now < last + limit.toNat :=
  Nat.lt_of_not_le (mt (le_elapsed_iff hrecent hlast limit).mpr hshort)

/-- A sweep keeps the vigil. -/
theorem age (h : Vigil limits id heard swept events p?) (hrecent : Recent now heard swept) :
    Vigil limits id heard (swept ++ [now])
      (events ++ (p?.bind (Peer.due limits (UInt32.ofNat now) id)).toList)
      (p?.bind (Peer.age limits (UInt32.ofNat now))) := by
  cases h with
  | unknown => exact .unknown
  | nearing first_mem last_eq unbroken unnoticed =>
    rw [Option.bind_some, Option.bind_some, Peer.age, Peer.due]
    split
    · exact .unknown
    · next hshort =>
      exact .nearing first_mem last_eq (unbroken.sweep hrecent.heard_le)
        (unnoticed.sweep (lt_of_short hrecent last_eq hshort))
  | @present last detectedAt last_eq unnoticed =>
    rw [Option.bind_some, Option.bind_some, Peer.age, Peer.due]
    split_ifs with habsent hquiet
    · exact .unknown
    · -- The grace is over, but the earlier sweeps were no later than this one.
      have hnow := lt_of_short hrecent last_eq habsent
      have hearlier : Unnoticed limits.absentAfter last swept := fun s hs _ =>
        Nat.lt_of_le_of_lt (hrecent.swept_le s hs) hnow
      exact .leaving last_eq (hearlier.sweep hnow) List.getLast?_concat
    · exact .present last_eq (unnoticed.sweep (lt_of_short hrecent last_eq hquiet))
  | leaving last_eq unnoticed reported =>
    rw [Option.bind_some, Option.bind_some, Peer.age, Peer.due]
    split
    · exact .unknown
    · next habsent =>
      rw [Option.toList_none, List.append_nil]
      exact .leaving last_eq (unnoticed.sweep (lt_of_short hrecent last_eq habsent)) reported

/-! ### Incidents -/

variable {q? : Option Peer} {more : List Event} {heard' swept' : List Nat}

/-- Each incident keeps the vigil. -/
theorem incident (h : Vigil limits id heard swept events p?) (hrecent : Recent now heard swept)
    (hincident : Peer.Incident limits id now heard' swept' p? more q?) :
    Vigil limits id (heard ++ heard') (swept ++ swept') (events ++ more) q? := by
  cases hincident with
  | pass =>
    rw [List.append_nil, List.append_nil, List.append_nil]
    exact h
  | refuse => exact .unknown
  | hear =>
    rw [List.append_nil]
    exact h.hear hrecent
  | age =>
    rw [List.append_nil]
    exact h.age hrecent

/-- A peer that is detected was heard without a break, for long enough. -/
theorem exists_first_of_detect (h : Vigil limits id heard swept events p?)
    (hrecent : Recent now heard swept)
    (hincident : Peer.Incident limits id now heard' swept' p? more q?) {source : NodeId}
    {since : Tick} (hdetect : .detect source since ∈ more) :
    heard' = [now] ∧ ∃ first ∈ heard ++ [now], since = UInt32.ofNat first ∧
      first + limits.detectAfter.toNat ≤ now ∧
      Unbroken limits.shortTimeout first (heard ++ [now]) swept := by
  cases hincident with
  | pass => cases hdetect
  | refuse => cases hdetect
  | hear =>
    rw [Option.mem_toList] at hdetect
    cases hp : p?.getD (.nearing (UInt32.ofNat now) (UInt32.ofNat now)) with
    | nearing firstTick lastTick =>
      obtain ⟨first, hfirst, rfl, hrange, hlater, hunbroken⟩ := h.exists_first hrecent hp
      rw [hp, Peer.hearEvent, hlater, Option.ite_none_right_eq_some] at hdetect
      obtain ⟨hlong, hevent⟩ := hdetect
      obtain ⟨-, rfl⟩ := Event.detect.inj (Option.some.inj hevent)
      exact ⟨rfl, first, hfirst, rfl,
        (Tick.le_elapsed_ofNat_iff hrange.1 hrange.2 _).mp hlong, hunbroken⟩
    | present lastTick detectedAt =>
      rw [hp] at hdetect
      cases hdetect
    | leaving quietSince lastTick detectedAt =>
      rw [hp] at hdetect
      cases hdetect
  | age =>
    rw [Option.mem_toList] at hdetect
    obtain ⟨p, -, hdue⟩ := Option.bind_eq_some_iff.mp hdetect
    cases p with
    | nearing firstTick lastTick => cases hdue
    | present lastTick detectedAt =>
      rw [Peer.due] at hdue
      split_ifs at hdue <;> cases hdue
    | leaving quietSince lastTick detectedAt =>
      rw [Peer.due] at hdue
      split_ifs at hdue
      cases hdue

/-- A peer that is absent was silent for long enough, and either has left before or was not swept
since its grace was over. -/
theorem exists_last_of_absent (h : Vigil limits id heard swept events p?)
    (hrecent : Recent now heard swept)
    (hincident : Peer.Incident limits id now heard' swept' p? more q?) {source : NodeId}
    {since : Tick} {dwell : UInt32} (habsent : .absent source since dwell ∈ more) :
    more = [.absent source since dwell] ∧ ∃ last ∈ heard, since = UInt32.ofNat last ∧
      last + limits.absentAfter.toNat ≤ now ∧
      (Unnoticed limits.leaveGrace last swept ∨
        Unnoticed limits.absentAfter last swept ∧ events.getLast? = some (.leave id since)) := by
  cases hincident with
  | pass => cases habsent
  | refuse => cases habsent
  | hear =>
    rw [Option.mem_toList] at habsent
    cases hp : p?.getD (.nearing (UInt32.ofNat now) (UInt32.ofNat now)) with
    | nearing firstTick lastTick =>
      rw [hp, Peer.hearEvent, Option.ite_none_right_eq_some] at habsent
      cases habsent.2
    | present lastTick detectedAt =>
      rw [hp] at habsent
      cases habsent
    | leaving quietSince lastTick detectedAt =>
      rw [hp] at habsent
      cases habsent
  | age =>
    rw [Option.mem_toList] at habsent
    refine ⟨by rw [habsent, Option.toList_some], ?_⟩
    cases h with
    | unknown => cases habsent
    | nearing first_mem last_eq unbroken unnoticed => cases habsent
    | present last_eq unnoticed =>
      rw [Option.bind_some, Peer.due] at habsent
      split_ifs at habsent with hlong <;> cases habsent
      exact ⟨_, List.mem_of_getLast? last_eq, rfl,
        (le_elapsed_iff hrecent last_eq _).mp hlong, .inl unnoticed⟩
    | leaving last_eq unnoticed reported =>
      rw [Option.bind_some, Peer.due] at habsent
      split_ifs at habsent with hlong
      cases habsent
      exact ⟨_, List.mem_of_getLast? last_eq, rfl,
        (le_elapsed_iff hrecent last_eq _).mp hlong, .inr ⟨unnoticed, reported⟩⟩

end Vigil

/-! ## Runs over a diary -/

namespace Tracker

variable {buckets records : Nat} {limits : Thresholds} {diary before after : List Entry}
  {now : Entry} {id : NodeId}

/-- What has been entered so far. -/
theorem InOrder.recent (h : InOrder (before ++ now :: after)) (id : NodeId)
    (limits : Thresholds) : Recent now.second (hearings id limits before) (sweeps before) where
  heard_le x hx := by
    obtain ⟨e, he, rfl⟩ := exists_of_mem_hearings hx
    exact (h.before_le he).1
  heard_within x hx := by
    obtain ⟨e, he, rfl⟩ := exists_of_mem_hearings hx
    exact (h.before_le he).2
  swept_le s hs := by
    obtain ⟨e, he, rfl⟩ := exists_of_mem_sweeps hs
    exact (h.before_le he).1

/-- The census of a tracker after a run has the thresholds in force. -/
theorem thresholds_eq_adjusted {calls : List Call} {c : Census}
    (h : ((start buckets records limits).run calls).1.Mirrors c) :
    c.thresholds = adjusted limits calls :=
  h.thresholds_eq.symm.trans (thresholds_run calls (start buckets records limits))

/-- A tracker keeps the vigil over every peer. -/
theorem exists_vigil (buckets records : Nat) (limits : Thresholds) (id : NodeId)
    (diary : List Entry) (h : InOrder diary) :
    ∃ c, ((start buckets records limits).run (calls diary)).1.Mirrors c ∧
      Vigil c.thresholds id (hearings id limits diary) (sweeps diary)
        (eventsAbout id ((start buckets records limits).run (calls diary)).2)
        (c.peers.get? id) := by
  induction diary using List.reverseRecOn with
  | nil => exact ⟨.start limits, .start buckets records limits, .unknown⟩
  | append_singleton before now ih =>
    obtain ⟨c, hc, hvigil⟩ := ih h.left
    obtain ⟨d, hstep, hd⟩ := hc.exists_step now.call
    have hnext := (hvigil.incident (h.recent id limits) (hstep.turn id).incident).adjust now.call
    have hthresholds : now.call.adjust c.thresholds = d.thresholds := by
      rw [← hc.thresholds_eq, ← hd.thresholds_eq, thresholds_call]
    refine ⟨d, ?_, ?_⟩
    · rw [calls_append, run_append]
      exact hd
    · rw [calls_append, hearings_append, ← thresholds_eq_adjusted hc, sweeps_append,
        ← hthresholds]
      exact (eventsAbout_run_concat _ id (calls before) now.call).symm ▸ hnext

/-- An entry anywhere in a diary is an incident to each peer, over which the vigil was kept. -/
theorem exists_incident (buckets records : Nat) (limits : Thresholds) (id : NodeId)
    (h : InOrder (before ++ now :: after)) :
    ∃ p? q?, Vigil (adjusted limits (calls before)) id (hearings id limits before) (sweeps before)
        (eventsAbout id ((start buckets records limits).run (calls before)).2) p? ∧
      Peer.Incident (adjusted limits (calls before)) id now.second
        (hearings id (adjusted limits (calls before)) [now]) (sweeps [now]) p?
        ((((start buckets records limits).run (calls before)).1.call now.call).2.filter
          (Event.isAbout id)) q? := by
  obtain ⟨c, hc, hvigil⟩ := exists_vigil buckets records limits id before h.left
  obtain ⟨d, hstep, -⟩ := hc.exists_step now.call
  rw [← thresholds_eq_adjusted hc]
  exact ⟨_, _, hvigil, (hstep.turn id).incident⟩

end Tracker

end PeerBeacon
