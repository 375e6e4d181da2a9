import Mathlib.Computability.Language
import PeerBeacon.Proofs.Tracker.View

/-!
# The course of events about one peer

Between a detect and the absent that closes it a peer is present, and may leave any number of times.
The events about one peer therefore come in the order of a regular language (`presences`), whatever
other peers do to the table and however the clock jumps.

To say when a peer may leave again, the history of a peer also has to show when it was heard.  A
`Mark` is either of the two, and `Course` says which histories lead to which `Standing`.  Each turn
of a peer takes a course further (`Course.turn`), and everything else is read off a course.  The
main statement is `Tracker.run_orderly`.
-/

namespace PeerBeacon

open Computability

/-! ## Histories -/

/-- What an event says. -/
inductive Event.Kind where
  | detect
  | leave
  | absent
  deriving DecidableEq, Repr

/-- The kind of an event. -/
def Event.kind : Event → Event.Kind
  | detect .. => .detect
  | leave .. => .leave
  | absent .. => .absent

/-- The orders in which the events of completed presences come: each presence is opened by a detect
and closed by an absent, with any number of leaves in between. -/
def presences : Language Event.Kind :=
  ({[.detect]} * {[.leave]}∗ * {[.absent]})∗

/-- Something in the history of one peer. -/
inductive Mark where
  /-- A reception from the peer that counts. -/
  | heard
  /-- An event about the peer. -/
  | reported (e : Event)

/-- The event that a mark stands for, if any. -/
def Mark.event? : Mark → Option Event
  | heard => none
  | reported e => some e

/-- The marks that a call leaves in the history of a peer, given the events about the peer. -/
def Tracker.Call.marks (limits : Thresholds) (id : NodeId) (call : Tracker.Call)
    (events : List Event) : List Mark :=
  (if call.hears limits id then [.heard] else []) ++ events.map .reported

/-- The history of a peer over a run of calls. -/
def Tracker.marks {buckets records : Nat} (id : NodeId) (t : Tracker buckets records) :
    List Tracker.Call → List Mark
  | [] => []
  | call :: calls =>
    call.marks t.thresholds id ((t.call call).2.filter (Event.isAbout id)) ++
      marks id (t.call call).1 calls

theorem filterMap_event?_marks (limits : Thresholds) (id : NodeId) (call : Tracker.Call)
    (events : List Event) : (call.marks limits id events).filterMap Mark.event? = events := by
  have hevents : (events.map Mark.reported).filterMap Mark.event? = events := by
    rw [List.filterMap_map]
    exact List.filterMap_some
  rw [Tracker.Call.marks, List.filterMap_append, hevents]
  split <;> rfl

/-- The history of a peer shows the events about it that were reported. -/
theorem Tracker.events_marks {buckets records : Nat} (id : NodeId) (calls : List Tracker.Call) :
    ∀ t : Tracker buckets records,
      (t.marks id calls).filterMap Mark.event? = eventsAbout id (t.run calls).2 := by
  induction calls with
  | nil => exact fun t => rfl
  | cons call calls ih =>
    intro t
    rw [marks, List.filterMap_append, filterMap_event?_marks, ih]
    exact (List.filter_append _ _).symm

/-! ## Courses -/

/-- How a peer stands in the eyes of whoever reads the events. -/
inductive Standing where
  /-- Not reported as present, or reported as absent since. -/
  | away
  /-- Reported as present, and not as leaving since it was last heard. -/
  | present
  /-- Reported as leaving, and not heard since. -/
  | leaving
  deriving DecidableEq, Repr

/-- The standing once the peer is heard. -/
def Standing.hear : Standing → Standing
  | away => away
  | present | leaving => present

/-- The standing of a peer; one that is not known, or only nearing, is away. -/
def Peer.standing : Option Peer → Standing
  | none | some (nearing ..) => .away
  | some (present ..) => .present
  | some (leaving ..) => .leaving

/-- The histories of a peer that lead to a standing. -/
inductive Course (id : NodeId) : Standing → List Mark → Prop where
  | start : Course id .away []
  /-- Being heard is possible at any time. -/
  | heard {s : Standing} {marks : List Mark} (h : Course id s marks) :
      Course id s.hear (marks ++ [.heard])
  /-- Only a peer that is away is detected. -/
  | detect {marks : List Mark} (h : Course id .away marks) (since : Tick) :
      Course id .present (marks ++ [.reported (.detect id since)])
  /-- Only a peer that is present leaves. -/
  | leave {marks : List Mark} (h : Course id .present marks) (since : Tick) :
      Course id .leaving (marks ++ [.reported (.leave id since)])
  /-- Any peer but one that is away becomes absent. -/
  | absent {s : Standing} {marks : List Mark} (h : Course id s marks) (hs : s ≠ .away)
      (since : Tick) (dwell : UInt32) :
      Course id .away (marks ++ [.reported (.absent id since dwell)])

namespace Course

variable {id : NodeId} {s : Standing} {marks : List Mark} {limits : Thresholds}

/-- A peer that is heard goes on in its course. -/
theorem hear {p : Peer} (h : Course id (Peer.standing (some p)) marks) (detectAfter : UInt32)
    (heard : Tick) :
    Course id (Peer.standing (some (p.hear detectAfter heard)))
      (marks ++ .heard :: (p.hearEvent detectAfter heard id).toList.map .reported) := by
  have hheard := h.heard
  cases p with
  | nearing first last =>
    rw [Peer.hear, Peer.hearEvent]
    split
    · rw [List.append_cons]
      exact hheard.detect first
    · exact hheard
  | present last detectedAt => exact hheard
  | leaving quietSince last detectedAt => exact hheard

/-- A peer that is aged goes on in its course. -/
theorem age {p : Peer} (h : Course id (Peer.standing (some p)) marks) (now : Tick) :
    Course id (Peer.standing (p.age limits now))
      (marks ++ (p.due limits now id).toList.map .reported) := by
  cases p with
  | nearing first last =>
    rw [Peer.age, Peer.due, Option.toList_none, List.map_nil, List.append_nil]
    split <;> exact h
  | present last detectedAt =>
    rw [Peer.age, Peer.due]
    split_ifs
    · exact h.absent Standing.noConfusion _ _
    · exact h.leave _
    · exact (List.append_nil marks).symm ▸ h
  | leaving quietSince last detectedAt =>
    rw [Peer.age, Peer.due]
    split_ifs
    · exact h.absent Standing.noConfusion _ _
    · exact (List.append_nil marks).symm ▸ h

/-- Each turn of a peer takes its course further. -/
theorem turn {call : Tracker.Call} {p? q? : Option Peer} {events : List Event}
    (h : Course id (Peer.standing p?) marks) (hturn : Peer.Turn limits id call p? events q?) :
    Course id (Peer.standing q?) (marks ++ call.marks limits id events) := by
  cases hturn with
  | pass unheard unswept =>
    rw [Tracker.Call.marks, if_neg (Bool.eq_false_iff.mp unheard)]
    exact (List.append_nil marks).symm ▸ h
  | refuse heard =>
    rw [Tracker.Call.marks, if_pos heard]
    exact h.heard
  | @hear rssi heard _ hq =>
    rw [Tracker.Call.marks, if_pos (by simp [Tracker.Call.hears, hq])]
    cases p? with
    | none => exact hear (p := .nearing heard heard) h limits.detectAfter heard
    | some p => exact h.hear limits.detectAfter heard
  | @age now =>
    rw [Tracker.Call.marks, Tracker.Call.hears, if_neg Bool.false_ne_true]
    cases p? with
    | none => exact (List.append_nil marks).symm ▸ h
    | some p => exact h.age now

/-! ### The order of events -/

/-- The orders in which the events of the current presence come. -/
def unfinished : Standing → Language Event.Kind
  | .away => 1
  | .present | .leaving => {[.detect]} * {[.leave]}∗

/-- The kinds of the events in a history. -/
def kinds (marks : List Mark) : List Event.Kind :=
  (marks.filterMap Mark.event?).map Event.kind

theorem kinds_append_heard (marks : List Mark) : kinds (marks ++ [.heard]) = kinds marks := by
  rw [kinds, List.filterMap_append]
  exact congrArg (List.map Event.kind) (List.append_nil _)

theorem kinds_append_reported (marks : List Mark) (e : Event) :
    kinds (marks ++ [.reported e]) = kinds marks ++ [e.kind] := by
  rw [kinds, List.filterMap_append, List.map_append]
  rfl

theorem kinds_mem (h : Course id s marks) : kinds marks ∈ presences * unfinished s := by
  induction h with
  | start => exact Language.append_mem_mul (Language.nil_mem_kstar _) Language.nil_mem_one
  | @heard s marks h ih =>
    rw [kinds_append_heard]
    cases s <;> exact ih
  | @detect marks h since ih =>
    rw [unfinished, mul_one] at ih
    have hopen : [Event.Kind.detect] ∈ unfinished .present :=
      Language.mem_mul.mpr ⟨_, rfl, _, Language.nil_mem_kstar _, List.append_nil _⟩
    rw [kinds_append_reported]
    exact Language.append_mem_mul ih hopen
  | @leave marks h since ih =>
    have hmore : presences * unfinished .present * {[Event.Kind.leave]} ≤
        presences * unfinished .leaving := by
      rw [unfinished, unfinished, mul_assoc, mul_assoc]
      exact mul_le_mul_right (mul_le_mul_right kstar_mul_le_kstar _) _
    rw [kinds_append_reported]
    exact hmore (Language.append_mem_mul ih rfl)
  | @absent s marks h hs since dwell ih =>
    have hopen : unfinished s = {[Event.Kind.detect]} * {[Event.Kind.leave]}∗ := by
      cases s with
      | away => exact absurd rfl hs
      | present => rfl
      | leaving => rfl
    have hclosed : presences * unfinished s * {[Event.Kind.absent]} ≤ presences := by
      rw [hopen, mul_assoc]
      exact kstar_mul_le_kstar
    rw [kinds_append_reported, unfinished, mul_one]
    exact hclosed (Language.append_mem_mul ih rfl)

/-- The events about a peer that is away are those of completed presences. -/
theorem kinds_mem_of_away (h : Course id .away marks) : kinds marks ∈ presences := by
  have hmem := h.kinds_mem
  rwa [unfinished, mul_one] at hmem

/-- The events of a course can go on so that every presence is completed. -/
theorem exists_completion (h : Course id s marks) : ∃ rest, kinds marks ++ rest ∈ presences := by
  by_cases hs : s = .away
  · subst hs
    exact ⟨[], (List.append_nil (kinds marks)).symm ▸ h.kinds_mem_of_away⟩
  · have hmem := (h.absent hs 0 0).kinds_mem_of_away
    rw [kinds_append_reported] at hmem
    exact ⟨_, hmem⟩

/-! ### The last event -/

theorem getLast?_kinds_heard (marks : List Mark) :
    (kinds (marks ++ [.heard])).getLast? = (kinds marks).getLast? := by
  rw [kinds_append_heard]

theorem getLast?_kinds_reported (marks : List Mark) (e : Event) :
    (kinds (marks ++ [.reported e])).getLast? = some e.kind := by
  rw [kinds_append_reported, List.getLast?_concat]

/-- A peer is reported as present, and not as absent since, if and only if the last event about it
is a detect or a leave. -/
theorem ne_away_iff (h : Course id s marks) :
    s ≠ .away ↔
      (kinds marks).getLast? = some .detect ∨ (kinds marks).getLast? = some .leave := by
  induction h with
  | start => decide
  | @heard s marks h ih =>
    rw [getLast?_kinds_heard, ← ih]
    cases s <;> decide
  | detect h since ih =>
    rw [getLast?_kinds_reported]
    exact iff_of_true Standing.noConfusion (.inl rfl)
  | leave h since ih =>
    rw [getLast?_kinds_reported]
    exact iff_of_true Standing.noConfusion (.inr rfl)
  | absent h hs since dwell ih =>
    rw [getLast?_kinds_reported]
    refine iff_of_false (fun hne => hne rfl) ?_
    rintro (hlast | hlast) <;> cases hlast

/-! ### What comes after a leave -/

variable {before after : List Mark} {since : Tick}

/-- In a history that ends in a mark `x`, a mark `y` is the last one or comes before it. -/
theorem eq_or_exists_of_snoc {x y : Mark} (h : marks ++ [x] = before ++ y :: after) :
    (marks = before ∧ x = y ∧ after = []) ∨
      ∃ rest, marks = before ++ y :: rest ∧ after = rest ++ [x] := by
  rcases List.eq_nil_or_concat after with rfl | ⟨rest, z, rfl⟩
  · obtain ⟨hmarks, hx⟩ := List.append_inj' h rfl
    exact .inl ⟨hmarks, List.head_eq_of_cons_eq hx, rfl⟩
  · rw [List.concat_eq_append, ← List.cons_append, ← List.append_assoc] at h
    obtain ⟨hmarks, hx⟩ := List.append_inj' h rfl
    obtain rfl := List.head_eq_of_cons_eq hx
    exact .inr ⟨rest, hmarks, List.concat_eq_append⟩

/-- A peer that leaves was present. -/
theorem present_of_leave (h : Course id s marks)
    (heq : marks = before ++ .reported (.leave id since) :: after) : Course id .present before := by
  induction h generalizing after with
  | start => exact absurd heq.symm (List.append_ne_nil_of_right_ne_nil _ (List.cons_ne_nil _ _))
  | heard h ih =>
    rcases eq_or_exists_of_snoc heq with ⟨-, hx, -⟩ | ⟨rest, hrest, -⟩
    · cases hx
    · exact ih hrest
  | detect h since ih =>
    rcases eq_or_exists_of_snoc heq with ⟨-, hx, -⟩ | ⟨rest, hrest, -⟩
    · cases hx
    · exact ih hrest
  | leave h since ih =>
    rcases eq_or_exists_of_snoc heq with ⟨rfl, -, -⟩ | ⟨rest, hrest, -⟩
    · exact h
    · exact ih hrest
  | absent h hs since dwell ih =>
    rcases eq_or_exists_of_snoc heq with ⟨-, hx, -⟩ | ⟨rest, hrest, -⟩
    · cases hx
    · exact ih hrest

/-- As long as a peer that has left is not absent it is not away, and if it is present again it was
heard. -/
theorem heard_since_leave (h : Course id s marks)
    (heq : marks = before ++ .reported (.leave id since) :: after)
    (hstays : ∀ last dwell, .reported (.absent id last dwell) ∉ after) :
    s ≠ .away ∧ (s = .present → .heard ∈ after) := by
  induction h generalizing after with
  | start => exact absurd heq.symm (List.append_ne_nil_of_right_ne_nil _ (List.cons_ne_nil _ _))
  | @heard s marks h ih =>
    rcases eq_or_exists_of_snoc heq with ⟨-, hx, -⟩ | ⟨rest, hrest, rfl⟩
    · cases hx
    · have hmem : Mark.heard ∈ rest ++ [.heard] := List.mem_append_right rest List.mem_cons_self
      obtain ⟨hs, -⟩ := ih hrest fun last dwell hmem =>
        hstays last dwell (List.mem_append_left _ hmem)
      refine ⟨?_, fun _ => hmem⟩
      cases s with
      | away => exact absurd rfl hs
      | present => exact Standing.noConfusion
      | leaving => exact Standing.noConfusion
  | detect h since ih =>
    rcases eq_or_exists_of_snoc heq with ⟨-, hx, -⟩ | ⟨rest, hrest, rfl⟩
    · cases hx
    · obtain ⟨hs, -⟩ := ih hrest fun last dwell hmem =>
        hstays last dwell (List.mem_append_left _ hmem)
      exact absurd rfl hs
  | leave h since ih => exact ⟨Standing.noConfusion, Standing.noConfusion⟩
  | absent h hs since dwell ih =>
    rcases eq_or_exists_of_snoc heq with ⟨-, hx, -⟩ | ⟨rest, hrest, rfl⟩
    · cases hx
    · exact absurd (List.mem_append_right rest List.mem_cons_self) (hstays since dwell)

/-- Between two leaves without an absent in between the peer was heard. -/
theorem heard_between_leaves {between : List Mark} {since' : Tick} (h : Course id s marks)
    (heq : marks = before ++ .reported (.leave id since) ::
      (between ++ .reported (.leave id since') :: after))
    (hstays : ∀ last dwell, .reported (.absent id last dwell) ∉ between) : .heard ∈ between := by
  rw [← List.cons_append, ← List.append_assoc] at heq
  exact ((h.present_of_leave heq).heard_since_leave rfl hstays).2 rfl

/-- A peer is leaving if and only if the last event about it is a leave and it was not heard
since. -/
theorem leaving_iff (h : Course id s marks) :
    s = .leaving ↔ ∃ before since after, marks = before ++ .reported (.leave id since) :: after ∧
      after.filterMap Mark.event? = [] ∧ .heard ∉ after := by
  constructor
  · intro hs
    cases h with
    | start => cases hs
    | @heard s marks h => cases s <;> cases hs
    | detect h since => cases hs
    | @leave marks h since => exact ⟨marks, since, [], rfl, rfl, List.not_mem_nil⟩
    | absent h hs' since dwell => cases hs
  · rintro ⟨before, since, after, heq, hevents, hheard⟩
    have hstays : ∀ last dwell, .reported (.absent id last dwell) ∉ after := by
      intro last dwell hmem
      have hmem' : Event.absent id last dwell ∈ after.filterMap Mark.event? :=
        List.mem_filterMap.mpr ⟨_, hmem, rfl⟩
      rw [hevents] at hmem'
      exact absurd hmem' List.not_mem_nil
    obtain ⟨hs, hpresent⟩ := h.heard_since_leave heq hstays
    cases s with
    | away => exact absurd rfl hs
    | present => exact absurd (hpresent rfl) hheard
    | leaving => rfl

end Course

/-! ## Runs of a tracker -/

theorem Peer.Turn.length_events_le {limits : Thresholds} {id : NodeId} {call : Tracker.Call}
    {p? q? : Option Peer} {events : List Event} (h : Turn limits id call p? events q?) :
    events.length ≤ 1 := by
  cases h with
  | pass unheard unswept => exact Nat.zero_le 1
  | refuse heard => exact Nat.zero_le 1
  | hear h => exact Option.length_toList_le
  | age => exact Option.length_toList_le

namespace Tracker

variable {buckets records : Nat} {t : Tracker buckets records} {c : Census}

/-- The phase of a peer shows its standing. -/
theorem Mirrors.phase?_iff_standing (h : t.Mirrors c) (id : NodeId) :
    (t.phase? id = some .present ↔ Peer.standing (c.peers.get? id) = .present) ∧
      (t.phase? id = some .leaving ↔ Peer.standing (c.peers.get? id) = .leaving) := by
  rw [phase?, h.holds.get?_eq]
  cases c.peers.get? id with
  | none => simp [Peer.standing]
  | some p => cases p <;> simp [Peer.record, Peer.standing]

/-- A run of calls takes the course of every peer further, and no call reports more than one event
about it. -/
theorem Mirrors.course_run (id : NodeId) (calls : List Call) :
    ∀ {t : Tracker buckets records} {c : Census} {before : List Mark}, t.Mirrors c →
      Course id (Peer.standing (c.peers.get? id)) before →
      (∃ d, (t.run calls).1.Mirrors d ∧
        Course id (Peer.standing (d.peers.get? id)) (before ++ t.marks id calls)) ∧
      ∀ report ∈ (t.run calls).2, (report.filter (Event.isAbout id)).length ≤ 1 := by
  induction calls with
  | nil =>
    intro t c before h hcourse
    refine ⟨⟨c, h, ?_⟩, fun report hreport => absurd hreport List.not_mem_nil⟩
    rw [marks, List.append_nil]
    exact hcourse
  | cons call calls ih =>
    intro t c before h hcourse
    obtain ⟨d, hstep, hd⟩ := h.exists_step call
    have hturn := hstep.turn id
    rw [← h.thresholds_eq] at hturn
    obtain ⟨⟨e, he, hcourse'⟩, hreports⟩ := ih hd (hcourse.turn hturn)
    refine ⟨⟨e, he, ?_⟩, fun report hreport => ?_⟩
    · rw [marks, ← List.append_assoc]
      exact hcourse'
    · rcases List.mem_cons.mp hreport with rfl | hlater
      · exact hturn.length_events_le
      · exact hreports report hlater

/-- What the events about one peer say after some calls, and what they leave out. -/
structure Orderly (t : Tracker buckets records) (calls : List Call) (id : NodeId) : Prop where
  /-- The events are the beginning of a sequence of completed presences. -/
  order : ∃ rest, (eventsAbout id (t.run calls).2).map Event.kind ++ rest ∈ presences
  /-- No call reports two events about the peer. -/
  length_le_one : ∀ report ∈ (t.run calls).2, (report.filter (Event.isAbout id)).length ≤ 1
  /-- Between two leaves of one presence the peer was heard. -/
  heard_between : ∀ before between after since since',
    t.marks id calls = before ++ .reported (.leave id since) ::
        (between ++ .reported (.leave id since') :: after) →
      (∀ last dwell, .reported (.absent id last dwell) ∉ between) → .heard ∈ between
  /-- The peer is present or leaving if and only if the last event is a detect or a leave. -/
  detected_iff :
    ((t.run calls).1.phase? id = some .present ∨ (t.run calls).1.phase? id = some .leaving) ↔
      ((eventsAbout id (t.run calls).2).map Event.kind).getLast? = some .detect ∨
        ((eventsAbout id (t.run calls).2).map Event.kind).getLast? = some .leave
  /-- The peer is leaving if and only if the last event is a leave and it was not heard since. -/
  leaving_iff :
    (t.run calls).1.phase? id = some .leaving ↔
      ∃ before since after, t.marks id calls = before ++ .reported (.leave id since) :: after ∧
        after.filterMap Mark.event? = [] ∧ .heard ∉ after

/-- **Events come in order.**  From a new tracker on, with any thresholds and after any calls, the
events about each peer are the beginning of a sequence of presences, each a detect, leaves and an
absent.  A peer is heard before it leaves again, no call reports two events about one peer, and the
phase of a peer shows which event was the last. -/
theorem run_orderly (buckets records : Nat) (thresholds : Thresholds) (calls : List Call)
    (id : NodeId) : (start buckets records thresholds).Orderly calls id := by
  obtain ⟨⟨c, hc, hcourse⟩, hreports⟩ :=
    Mirrors.course_run id calls (Mirrors.start buckets records thresholds) .start
  rw [List.nil_append] at hcourse
  obtain ⟨hpresent, hleaving⟩ := hc.phase?_iff_standing id
  have hkinds : Course.kinds ((start buckets records thresholds).marks id calls) =
      (eventsAbout id ((start buckets records thresholds).run calls).2).map Event.kind :=
    congrArg (List.map Event.kind) (events_marks id calls _)
  refine ⟨hkinds ▸ hcourse.exists_completion, hreports,
    fun before between after since since' heq => hcourse.heard_between_leaves heq, ?_, ?_⟩
  · rw [hpresent, hleaving, ← hkinds, ← hcourse.ne_away_iff]
    cases Peer.standing (c.peers.get? id) <;> decide
  · exact hleaving.trans hcourse.leaving_iff

end Tracker

end PeerBeacon
