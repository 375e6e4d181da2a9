import PeerBeacon.Proofs.Tracker.Settled

/-!
# Presence without leaving

A `Register` follows peers that are either nearing or present.  Nobody leaves in it, and of the
thresholds it never reads the leave grace.  `Register.Step` gives its rules; the order in which a
sweep goes through the contacts is handed to it with each call, and then nothing is left open
(`Register.Run.unique`).

Every step of a census is a step of the register of its contacts, with the leaves taken out of the
report (`Census.Step.register`).  So a register, told in which order a tracker goes through its
index, reports the detects and absents of the tracker (`Tracker.exists_run_register`), whatever the
leave grace.  With `Tracker.run_settled` this says that leaving is nothing but a remark on the side
(`Tracker.run_leaveGrace_neutral`).
-/

namespace PeerBeacon

/-! ## Contacts -/

/-- What is known about a peer that never leaves, its id apart. -/
inductive Contact where
  /-- Heard since `first`, and last at `last`, but not for long enough. -/
  | nearing (first last : Tick)
  /-- Last heard at `last`, and present since `detectedAt`. -/
  | present (last detectedAt : Tick)
  deriving DecidableEq, Repr

namespace Contact

/-- A contact is heard at `heard`. -/
def hear (detectAfter : UInt32) (heard : Tick) : Contact → Contact
  | nearing first last =>
    if detectAfter ≤ Tick.elapsed (Peer.later last heard) first then
      present (Peer.later last heard) (Peer.later last heard)
    else nearing first (Peer.later last heard)
  | present last detectedAt => present (Peer.later last heard) detectedAt

/-- The event that is due when a contact is heard at `heard`. -/
def hearEvent (detectAfter : UInt32) (heard : Tick) (id : NodeId) : Contact → Option Event
  | nearing first last =>
    if detectAfter ≤ Tick.elapsed (Peer.later last heard) first then some (.detect id first)
    else none
  | present .. => none

/-- What a sweep at `now` leaves of a contact, if anything. -/
def age (limits : Thresholds) (now : Tick) (x : Contact) : Option Contact :=
  match x with
  | nearing _ last => if limits.shortTimeout ≤ Tick.elapsed now last then none else some x
  | present last _ => if limits.absentAfter ≤ Tick.elapsed now last then none else some x

/-- The event that is due when a sweep at `now` looks at a contact. -/
def due (limits : Thresholds) (now : Tick) (id : NodeId) : Contact → Option Event
  | nearing .. => none
  | present last detectedAt =>
    if limits.absentAfter ≤ Tick.elapsed now last then
      some (.absent id last (Tick.elapsed last detectedAt))
    else none

end Contact

namespace Peer

/-- The contact that is left of a peer when leaving is taken for present. -/
def contact : Peer → Contact
  | nearing first last => .nearing first last
  | present last detectedAt => .present last detectedAt
  | leaving _ last detectedAt => .present last detectedAt

theorem contact_hear (detectAfter : UInt32) (heard : Tick) (p : Peer) :
    (p.hear detectAfter heard).contact = p.contact.hear detectAfter heard := by
  cases p with
  | nearing first last =>
    simp only [hear, contact, Contact.hear]
    split_ifs <;> rfl
  | present last detectedAt => rfl
  | leaving quietSince last detectedAt => rfl

/-- Being heard is reported of a contact as of the peer, which never leaves then. -/
theorem filter_hearEvent (detectAfter : UInt32) (heard : Tick) (id : NodeId) (p : Peer) :
    (p.hearEvent detectAfter heard id).filter Event.isBoundary =
      p.contact.hearEvent detectAfter heard id := by
  cases p with
  | nearing first last =>
    simp only [hearEvent, contact, Contact.hearEvent]
    split <;> rfl
  | present last detectedAt => rfl
  | leaving quietSince last detectedAt => rfl

theorem contact_age (limits : Thresholds) (now : Tick) (p : Peer) :
    (p.age limits now).map contact = p.contact.age limits now := by
  cases p with
  | nearing first last =>
    simp only [age, contact, Contact.age]
    split <;> rfl
  | present last detectedAt =>
    simp only [age, contact, Contact.age]
    split_ifs <;> rfl
  | leaving quietSince last detectedAt =>
    simp only [age, contact, Contact.age]
    split <;> rfl

/-- A sweep reports of a contact what it reports of the peer, a leave apart. -/
theorem filter_due (limits : Thresholds) (now : Tick) (id : NodeId) (p : Peer) :
    (p.due limits now id).filter Event.isBoundary = p.contact.due limits now id := by
  cases p with
  | nearing first last => rfl
  | present last detectedAt =>
    simp only [due, contact, Contact.due]
    split_ifs <;> rfl
  | leaving quietSince last detectedAt =>
    simp only [due, contact, Contact.due]
    split <;> rfl

end Peer

theorem filter_isBoundary_toList (e? : Option Event) :
    e?.toList.filter Event.isBoundary = (e?.filter Event.isBoundary).toList := by
  cases e? with
  | none => rfl
  | some e => cases e <;> rfl

/-! ## Registers -/

/-- Contacts that know nothing of each other, and the number of peers turned away. -/
structure Register where
  contacts : Directory Contact
  thresholds : Thresholds
  refusals : UInt32

namespace Register

/-- A register of nobody. -/
def start (thresholds : Thresholds) : Register where
  contacts := .empty
  thresholds := thresholds
  refusals := 0

/-- The event that is due for a contact at a sweep. -/
def due (r : Register) (now : Tick) (id : NodeId) : Option Event :=
  (r.contacts.get? id).bind (Contact.due r.thresholds now id)

/-- The rules of a register with room for `capacity` contacts; a sweep follows `order`. -/
inductive Step (capacity : Nat) (order : List NodeId) (r : Register) :
    Tracker.Call → List Event → Register → Prop where
  /-- A weak reception changes nothing. -/
  | weak {id : NodeId} {rssi : Int16} {heard : Tick} (h : r.thresholds.qualifies rssi = false) :
      Step capacity order r (.receive id rssi heard) [] r
  /-- A known contact is heard. -/
  | hear {id : NodeId} {rssi : Int16} {heard : Tick} {x : Contact}
      (h : r.thresholds.qualifies rssi = true) (known : r.contacts.get? id = some x) :
      Step capacity order r (.receive id rssi heard)
        (x.hearEvent r.thresholds.detectAfter heard id).toList
        { r with contacts := r.contacts.modify id (Contact.hear r.thresholds.detectAfter heard) }
  /-- A new contact for which there is room is nearing, and is heard at once. -/
  | meet {id : NodeId} {rssi : Int16} {heard : Tick} (h : r.thresholds.qualifies rssi = true)
      (hid : id ≠ NodeId.reserved) (unknown : id ∉ r.contacts.ids)
      (room : r.contacts.size < capacity) :
      Step capacity order r (.receive id rssi heard)
        ((Contact.nearing heard heard).hearEvent r.thresholds.detectAfter heard id).toList
        { r with
          contacts := r.contacts.insert id hid
            ((Contact.nearing heard heard).hear r.thresholds.detectAfter heard) }
  /-- A new contact for which there is no room is turned away and counted. -/
  | refuse {id : NodeId} {rssi : Int16} {heard : Tick} (h : r.thresholds.qualifies rssi = true)
      (hid : id ≠ NodeId.reserved) (unknown : id ∉ r.contacts.ids)
      (full : capacity ≤ r.contacts.size) :
      Step capacity order r (.receive id rssi heard) [] { r with refusals := r.refusals + 1 }
  /-- The reserved id is no contact and is not counted. -/
  | ignore {rssi : Int16} {heard : Tick} :
      Step capacity order r (.receive NodeId.reserved rssi heard) [] r
  /-- A sweep ages each contact by itself and reports in the order that it is handed. -/
  | sweep {now : Tick} (h : r.contacts.Listing order) :
      Step capacity order r (.sweep now) (order.filterMap (r.due now))
        { r with contacts := r.contacts.filterMap fun _ => Contact.age r.thresholds now }
  /-- The signal threshold moves. -/
  | setMinRssi {minRssi : Int16} :
      Step capacity order r (.setMinRssi minRssi) []
        { r with thresholds := { r.thresholds with minRssi } }

/-- The runs of a register over calls that come with the orders of their sweeps. -/
inductive Run (capacity : Nat) :
    Register → List (List NodeId × Tracker.Call) → List (List Event) → Register → Prop where
  | nil {r : Register} : Run capacity r [] [] r
  | cons {r s u : Register} {order : List NodeId} {call : Tracker.Call} {events : List Event}
      {calls : List (List NodeId × Tracker.Call)} {reports : List (List Event)}
      (step : Step capacity order r call events s) (rest : Run capacity s calls reports u) :
      Run capacity r ((order, call) :: calls) (events :: reports) u

/-- The order of its sweeps apart, a register has no choice. -/
theorem Step.unique {capacity : Nat} {order : List NodeId} {r s s' : Register}
    {call : Tracker.Call} {events events' : List Event}
    (h : Step capacity order r call events s) (h' : Step capacity order r call events' s') :
    events = events' ∧ s = s' := by
  have hnone : ∀ {id : NodeId}, id ∉ r.contacts.ids → r.contacts.get? id = none := fun hid =>
    Directory.get?_eq_none_iff.mpr hid
  have hreserved := r.contacts.get?_reserved
  -- Two rules for one call exclude each other by what they ask of the contact and of the room.
  cases h with
  | weak h => cases h' <;> simp_all
  | hear h known => cases h' <;> simp_all
  | meet h hid unknown room =>
    have hget := hnone unknown
    cases h' with
    | refuse _ _ _ full => exact absurd room (Nat.not_lt.mpr full)
    | ignore => exact absurd rfl hid
    | _ => simp_all
  | refuse h hid unknown full =>
    have hget := hnone unknown
    cases h' with
    | meet _ _ _ room => exact absurd room (Nat.not_lt.mpr full)
    | ignore => exact absurd rfl hid
    | _ => simp_all
  | ignore =>
    cases h' with
    | meet _ hid _ _ => exact absurd rfl hid
    | refuse _ hid _ _ => exact absurd rfl hid
    | _ => simp_all
  | sweep h =>
    cases h'
    exact ⟨rfl, rfl⟩
  | setMinRssi =>
    cases h'
    exact ⟨rfl, rfl⟩

theorem Run.unique {capacity : Nat} {r s s' : Register}
    {calls : List (List NodeId × Tracker.Call)} {reports reports' : List (List Event)}
    (h : Run capacity r calls reports s) (h' : Run capacity r calls reports' s') :
    reports = reports' ∧ s = s' := by
  induction h generalizing reports' s' with
  | nil =>
    cases h'
    exact ⟨rfl, rfl⟩
  | cons step rest ih =>
    cases h' with
    | cons step' rest' =>
      obtain ⟨rfl, rfl⟩ := step.unique step'
      obtain ⟨rfl, rfl⟩ := ih rest'
      exact ⟨rfl, rfl⟩

end Register

namespace Census

variable {capacity : Nat} {c d : Census} {call : Tracker.Call} {events : List Event}

/-- The register of the contacts that are left of the peers. -/
def register (c : Census) : Register where
  contacts := c.peers.map fun _ => Peer.contact
  thresholds := c.thresholds
  refusals := c.refusals

theorem register_peers (c : Census) {peers : Directory Peer} {contacts : Directory Contact}
    (h : peers.map (fun _ => Peer.contact) = contacts) :
    { c with peers }.register = { c.register with contacts } :=
  congrArg (Register.mk · c.thresholds c.refusals) h

theorem register_start (thresholds : Thresholds) :
    (start thresholds).register = .start thresholds :=
  congrArg (Register.mk · thresholds 0) (Directory.map_empty _)

theorem filter_due (c : Census) (now : Tick) (id : NodeId) :
    (c.due now id).filter Event.isBoundary = c.register.due now id := by
  rw [due, Register.due, register, Directory.get?_map]
  cases c.peers.get? id with
  | none => rfl
  | some p => exact p.filter_due c.thresholds now id

/-- A step of a census is a step of the register, with the leaves taken out of the report. -/
theorem Step.register (h : Step capacity c call events d) {order : List NodeId}
    (horder : ∀ now, call = .sweep now →
      c.peers.Listing order ∧ events = order.filterMap (c.due now)) :
    Register.Step capacity order c.register call (events.filter Event.isBoundary) d.register := by
  -- The contacts of the register are those of the census in number and in kind.
  have hids : ∀ id, id ∈ c.register.contacts.ids ↔ id ∈ c.peers.ids := fun id =>
    c.peers.mem_ids_map id _
  have hsize : c.register.contacts.size = c.peers.size := c.peers.size_map _
  have hget : ∀ id, c.register.contacts.get? id = (c.peers.get? id).map Peer.contact := fun id =>
    Directory.get?_map _ c.peers id
  cases h with
  | weak h => exact .weak h
  | @hear id rssi heard p h known =>
    have hcontacts := c.peers.map_modify id (fun _ => Peer.contact)
      (Peer.contact_hear c.thresholds.detectAfter heard)
    rw [filter_isBoundary_toList, Peer.filter_hearEvent, c.register_peers hcontacts]
    exact .hear h ((hget id).trans (congrArg (Option.map Peer.contact) known))
  | @meet id rssi heard h hid unknown room =>
    have hcontacts := c.peers.map_insert id (fun _ => Peer.contact) hid
      ((Peer.nearing heard heard).hear c.thresholds.detectAfter heard)
    have hnearing : (Peer.nearing heard heard).contact = .nearing heard heard := rfl
    rw [Peer.contact_hear, hnearing] at hcontacts
    rw [filter_isBoundary_toList, Peer.filter_hearEvent, hnearing, c.register_peers hcontacts]
    have hunknown : id ∉ c.register.contacts.ids := (hids id).not.mpr unknown
    have hroom : c.register.contacts.size < capacity := hsize.trans_lt room
    exact .meet (r := c.register) h hid hunknown hroom
  | @refuse id rssi heard h hid unknown full =>
    exact .refuse h hid ((hids id).not.mpr unknown) (full.trans_eq hsize.symm)
  | ignore => exact .ignore
  | @sweep now order' _ =>
    obtain ⟨hlisting, hevents⟩ := horder now rfl
    have hdue : (order.filterMap (c.due now)).filter Event.isBoundary =
        order.filterMap (c.register.due now) := by
      rw [List.filter_filterMap]
      exact List.filterMap_congr fun id _ => c.filter_due now id
    have hcontacts := c.peers.map_filterMap (fun _ => Peer.contact)
      fun _ => Peer.contact_age c.thresholds now
    rw [hevents, hdue, c.register_peers hcontacts]
    exact .sweep (hlisting.map _)
  | setMinRssi => exact .setMinRssi

end Census

/-! ## Trackers -/

namespace Tracker

variable {buckets records : Nat}

/-- Calls, each with the ids that the tracker knows before it in index order. -/
def itinerary (t : Tracker buckets records) : List Call → List (List NodeId × Call)
  | [] => []
  | call :: calls => (t.roster.ids, call) :: itinerary (t.call call).1 calls

/-- A register that goes through the contacts in the order of a tracker reports the detects and
absents of the tracker. -/
theorem exists_run_register (calls : List Call) :
    ∀ {t : Tracker buckets records} {c : Census}, t.Mirrors c →
      ∃ r, Register.Run (min buckets records) c.register (t.itinerary calls)
        (boundaries (t.run calls).2) r := by
  induction calls with
  | nil => exact fun {t c} _ => ⟨c.register, .nil⟩
  | cons call calls ih =>
    intro t c h
    obtain ⟨d, hstep, hd⟩ := h.exists_step call
    obtain ⟨r, hrest⟩ := ih hd
    refine ⟨r, .cons (hstep.register ?_) hrest⟩
    rintro now rfl
    exact ⟨h.holds.listing, h.answer_sweep now⟩

/-- **Leaving is a remark on the side.**  From a new tracker on, with any thresholds and after any
calls, another leave grace changes neither the detects and absents that each call reports, nor the
peers that the tracker knows, when they were last heard and detected, nor its counts; and the
detects and absents are those of a register, in which no peer ever leaves. -/
theorem run_leaveGrace_neutral (buckets records : Nat) (thresholds : Thresholds)
    (leaveGrace : UInt32) (calls : List Call) :
    boundaries ((start buckets records { thresholds with leaveGrace }).run calls).2 =
        boundaries ((start buckets records thresholds).run calls).2 ∧
      ((start buckets records { thresholds with leaveGrace }).run calls).1.Alike
        ((start buckets records thresholds).run calls).1 ∧
      ∀ reports, (∃ r, Register.Run (min buckets records) (.start thresholds)
          ((start buckets records thresholds).itinerary calls) reports r) ↔
        reports = boundaries ((start buckets records thresholds).run calls).2 := by
  have hother := run_settled calls
    (Mirrors.start buckets records { thresholds with leaveGrace })
  have hthis := run_settled calls (Mirrors.start buckets records thresholds)
  rw [settled_start_leaveGrace, hthis, Prod.mk.injEq] at hother
  obtain ⟨hstate, hreports⟩ := hother
  obtain ⟨r, hregister⟩ :=
    exists_run_register calls (Mirrors.start buckets records thresholds)
  rw [Census.register_start] at hregister
  refine ⟨hreports.symm, .of_settled_eq hstate.symm, fun reports => ⟨?_, ?_⟩⟩
  · rintro ⟨r', hrun⟩
    exact (hrun.unique hregister).1
  · rintro rfl
    exact ⟨r, hregister⟩

end Tracker

end PeerBeacon
