import PeerBeacon.Proofs.Tracker.Census

/-!
# A census seen from one peer

The peers of a census know nothing of each other, so whatever a call does to the others, it does to
one peer one of four things.  It passes the peer by; it turns the peer away for lack of room; it
hears the peer; or it ages the peer.  `Peer.Turn` lists them, each with the events about the peer
that go with it, and every step of a census is one of them for every peer (`Census.Step.turn`).
-/

namespace PeerBeacon

/-- The event is about the peer `id`. -/
def Event.isAbout (id : NodeId) (e : Event) : Bool :=
  e.id == id

/-- The events about a peer in the reports of a run, in order. -/
def eventsAbout (id : NodeId) (reports : List (List Event)) : List Event :=
  reports.flatten.filter (Event.isAbout id)

theorem eventsAbout_append (id : NodeId) (reports later : List (List Event)) :
    eventsAbout id (reports ++ later) = eventsAbout id reports ++ eventsAbout id later := by
  rw [eventsAbout, List.flatten_append, List.filter_append]
  rfl

/-- A last call adds its own events. -/
theorem Tracker.eventsAbout_run_concat {buckets records : Nat} (t : Tracker buckets records)
    (id : NodeId) (calls : List Tracker.Call) (call : Tracker.Call) :
    eventsAbout id (t.run (calls ++ [call])).2 =
      eventsAbout id (t.run calls).2 ++
        (((t.run calls).1.call call).2.filter (Event.isAbout id)) := by
  have hlast : eventsAbout id ((t.run calls).1.run [call]).2 =
      ((t.run calls).1.call call).2.filter (Event.isAbout id) :=
    congrArg (List.filter (Event.isAbout id)) (List.append_nil _)
  rw [Tracker.run_append, eventsAbout_append, hlast]

/-- The call is a reception from the peer `id` that is strong enough to count. -/
def Tracker.Call.hears (limits : Thresholds) (id : NodeId) : Tracker.Call → Bool
  | .receive source rssi _ => source == id && limits.qualifies rssi
  | .sweep _ | .setMinRssi _ => false

namespace Peer

/-- What a call does to one peer, with the events about it. -/
inductive Turn (limits : Thresholds) (id : NodeId) :
    Tracker.Call → Option Peer → List Event → Option Peer → Prop where
  /-- The call has nothing to do with the peer. -/
  | pass {call : Tracker.Call} {p? : Option Peer} (unheard : call.hears limits id = false)
      (unswept : ∀ now, call ≠ .sweep now) : Turn limits id call p? [] p?
  /-- There is no room for the peer. -/
  | refuse {call : Tracker.Call} (heard : call.hears limits id = true) :
      Turn limits id call none [] none
  /-- The peer is heard; a new one is nearing first. -/
  | hear {rssi : Int16} {heard : Tick} {p? : Option Peer} (h : limits.qualifies rssi = true) :
      Turn limits id (.receive id rssi heard) p?
        ((p?.getD (.nearing heard heard)).hearEvent limits.detectAfter heard id).toList
        (some ((p?.getD (.nearing heard heard)).hear limits.detectAfter heard))
  /-- The peer is aged. -/
  | age {now : Tick} {p? : Option Peer} :
      Turn limits id (.sweep now) p? (p?.bind (Peer.due limits now id)).toList
        (p?.bind (Peer.age limits now))

/-! ## Events about one peer -/

theorem id_of_hearEvent {detectAfter : UInt32} {heard : Tick} {id : NodeId} {p : Peer} {e : Event}
    (h : p.hearEvent detectAfter heard id = some e) : e.id = id := by
  cases p with
  | nearing first last =>
    rw [hearEvent, Option.ite_none_right_eq_some] at h
    rw [← Option.some.inj h.2]
    rfl
  | present last detectedAt => cases h
  | leaving quietSince last detectedAt => cases h

theorem id_of_due {limits : Thresholds} {now : Tick} {id : NodeId} {p : Peer} {e : Event}
    (h : p.due limits now id = some e) : e.id = id := by
  cases p with
  | nearing first last => cases h
  | present last detectedAt =>
    rw [due] at h
    split_ifs at h <;> cases h <;> rfl
  | leaving quietSince last detectedAt =>
    rw [due] at h
    split_ifs at h
    cases h
    rfl

end Peer

/-- An event about one peer is about no other. -/
theorem filter_isAbout_toList {e? : Option Event} {source : NodeId}
    (h : ∀ e, e? = some e → e.id = source) (id : NodeId) :
    e?.toList.filter (Event.isAbout id) = if source = id then e?.toList else [] := by
  cases e? with
  | none => exact (ite_self []).symm
  | some e =>
    obtain rfl := h e rfl
    simp [Event.isAbout, List.filter_cons]

/-- Of a report with at most one event for each peer, in some order, only that of one peer is about
it. -/
theorem filter_isAbout_filterMap {due : NodeId → Option Event}
    (hdue : ∀ id e, due id = some e → e.id = id) (id : NodeId) {order : List NodeId}
    (hnodup : order.Nodup) :
    (order.filterMap due).filter (Event.isAbout id) =
      if id ∈ order then (due id).toList else [] := by
  induction order with
  | nil => rfl
  | cons first rest ih =>
    obtain ⟨hfirst, hrest⟩ := List.nodup_cons.mp hnodup
    have hcons : (first :: rest).filterMap due = (due first).toList ++ rest.filterMap due := by
      rw [List.filterMap_cons]
      cases due first <;> rfl
    rw [hcons, List.filter_append, filter_isAbout_toList (hdue first) id, ih hrest]
    by_cases hid : first = id
    · subst hid
      simp [hfirst]
    · simp [hid, Ne.symm hid]

/-! ## Steps of a census -/

namespace Census

variable {capacity : Nat} {c d : Census} {call : Tracker.Call} {events : List Event}

theorem id_of_due {now : Tick} {id : NodeId} {e : Event} (h : c.due now id = some e) :
    e.id = id := by
  obtain ⟨p, -, hp⟩ := Option.bind_eq_some_iff.mp h
  exact Peer.id_of_due hp

/-- A reception that is not from the peer, or does not count, passes the peer by. -/
theorem turn_of_unheard {source id : NodeId} {rssi : Int16} {heard : Tick} {p? : Option Peer}
    {limits : Thresholds}
    (h : (Tracker.Call.receive source rssi heard).hears limits id = false) :
    Peer.Turn limits id (.receive source rssi heard) p? [] p? :=
  .pass h fun _ => Tracker.Call.noConfusion

/-- Every step of a census is, for every peer, one of the four turns. -/
theorem Step.turn (h : Step capacity c call events d) (id : NodeId) :
    Peer.Turn c.thresholds id call (c.peers.get? id) (events.filter (Event.isAbout id))
      (d.peers.get? id) := by
  cases h with
  | weak h =>
    exact turn_of_unheard (by rw [Tracker.Call.hears, h, Bool.and_false])
  | @hear source rssi heard p h known =>
    rw [filter_isAbout_toList (fun e => Peer.id_of_hearEvent) id, Directory.get?_modify, known]
    by_cases hid : source = id
    · subst hid
      rw [if_pos rfl, if_pos rfl, known]
      exact @Peer.Turn.hear _ _ _ _ (some p) h
    · rw [if_neg hid, if_neg (Ne.symm hid)]
      exact turn_of_unheard (by simp [Tracker.Call.hears, hid])
  | @meet source rssi heard h hsource unknown room =>
    rw [filter_isAbout_toList (fun e => Peer.id_of_hearEvent) id, Directory.get?_insert]
    by_cases hid : source = id
    · subst hid
      rw [if_pos rfl, if_pos rfl, Directory.get?_eq_none_iff.mpr unknown]
      exact @Peer.Turn.hear _ _ _ _ none h
    · rw [if_neg hid, if_neg (Ne.symm hid)]
      exact turn_of_unheard (by simp [Tracker.Call.hears, hid])
  | @refuse source rssi heard h hsource unknown full =>
    by_cases hid : source = id
    · subst hid
      rw [Directory.get?_eq_none_iff.mpr unknown]
      exact .refuse (by simp [Tracker.Call.hears, h])
    · exact turn_of_unheard (by simp [Tracker.Call.hears, hid])
  | @ignore rssi heard =>
    cases hhears : (Tracker.Call.receive NodeId.reserved rssi heard).hears c.thresholds id with
    | false => exact turn_of_unheard hhears
    | true =>
      have hid : NodeId.reserved = id := beq_iff_eq.mp (Bool.and_eq_true_iff.mp hhears).1
      subst hid
      rw [c.peers.get?_reserved]
      exact .refuse hhears
  | @sweep now order horder =>
    have hevents : (order.filterMap (c.due now)).filter (Event.isAbout id) =
        (c.due now id).toList := by
      rw [filter_isAbout_filterMap (fun _ _ => id_of_due) id horder.1]
      split
      · rfl
      · next hid =>
        rw [due, Directory.get?_eq_none_iff.mpr fun hmem => hid ((horder.2 id).mpr hmem)]
        rfl
    rw [hevents]
    exact .age
  | setMinRssi => exact .pass rfl fun _ => Tracker.Call.noConfusion

end Census

/-! ## Sweeps of a tracker -/

/-- A sweep ages every peer. -/
theorem Peer.Turn.eq_of_sweep {limits : Thresholds} {id : NodeId} {now : Tick} {p? q? : Option Peer}
    {events : List Event} (h : Turn limits id (.sweep now) p? events q?) :
    events = (p?.bind (Peer.due limits now id)).toList ∧ q? = p?.bind (Peer.age limits now) := by
  cases h with
  | pass unheard unswept => exact absurd rfl (unswept now)
  | refuse heard => cases heard
  | age => exact ⟨rfl, rfl⟩

/-- A sweep leaves of each peer what is left of it, and reports what is due for it. -/
theorem Tracker.Mirrors.exists_sweep {buckets records : Nat} {t : Tracker buckets records}
    {c : Census} (h : t.Mirrors c) (now : Tick) :
    ∃ d, (t.sweep now).state.Mirrors d ∧ ∀ id,
      d.peers.get? id = (c.peers.get? id).bind (Peer.age t.thresholds now) ∧
        (t.sweep now).answer.filter (Event.isAbout id) =
          ((c.peers.get? id).bind (Peer.due t.thresholds now id)).toList := by
  obtain ⟨d, hstep, hd⟩ := h.exists_step_sweep now
  refine ⟨d, hd, fun id => ?_⟩
  obtain ⟨hevents, hpeer⟩ := (hstep.turn id).eq_of_sweep
  rw [h.thresholds_eq]
  exact ⟨hpeer, hevents⟩

end PeerBeacon
