import PeerBeacon.Proofs.Node.FullSlot

/-!
# The radio is on when it has to be

A node does not know its radio.  It only remembers, in `Scheduler.radioHeld`, whether the last slot
left it on, and a `Rig` is a node together with the radio itself.  The two agree as long as whoever
switches the radio off outside the schedule says so (`Rig.Ready.radioHeld_eq`), and the radio is on
between two slots only if the next one is active.

From this it follows that no slot asks for anything that the radio cannot do (`Drives`), that an
inactive slot leaves alone a radio that is off, and that an active slot sends its burst
(`Rig.run_proper`).  Nothing is assumed of the scheme: it may be one that no settings check lets
pass.
-/

namespace PeerBeacon

/-! ## Acts and the radio -/

namespace RadioAct

/-- Whether the radio is on after an act. -/
def power (on : Bool) : RadioAct → Bool
  | switchOn => true
  | switchOff => false
  | send _ | wait => on

/-- The act switches the radio on or off. -/
def isSwitch : RadioAct → Bool
  | switchOn | switchOff => true
  | send _ | wait => false

end RadioAct

/-- Acts that a radio can do, from being on or off at first to being on or off at last. -/
inductive Drives : Bool → List RadioAct → Bool → Prop where
  | done {on : Bool} : Drives on [] on
  /-- The radio is switched on only when it is off. -/
  | switchOn {acts : List RadioAct} {last : Bool} (rest : Drives true acts last) :
      Drives false (.switchOn :: acts) last
  /-- The radio is switched off only when it is on. -/
  | switchOff {acts : List RadioAct} {last : Bool} (rest : Drives false acts last) :
      Drives true (.switchOff :: acts) last
  /-- The radio sends only when it is on. -/
  | send {announcement : Announcement} {acts : List RadioAct} {last : Bool}
      (rest : Drives true acts last) : Drives true (.send announcement :: acts) last
  /-- Waiting has nothing to do with the radio. -/
  | wait {on : Bool} {acts : List RadioAct} {last : Bool} (rest : Drives on acts last) :
      Drives on (.wait :: acts) last

namespace Drives

variable {on mid last : Bool} {acts later : List RadioAct}

theorem foldl_power (h : Drives on acts last) : acts.foldl RadioAct.power on = last := by
  induction h with
  | done => rfl
  | switchOn rest ih => exact ih
  | switchOff rest ih => exact ih
  | send rest ih => exact ih
  | wait rest ih => exact ih

theorem append (h : Drives on acts mid) (hlater : Drives mid later last) :
    Drives on (acts ++ later) last := by
  induction h with
  | done => exact hlater
  | switchOn rest ih => exact .switchOn (ih hlater)
  | switchOff rest ih => exact .switchOff (ih hlater)
  | send rest ih => exact .send (ih hlater)
  | wait rest ih => exact .wait (ih hlater)

end Drives

namespace Node

variable {buckets records : Nat}

/-- A burst needs a radio that is on and leaves it on. -/
theorem drives_burst (clock : SlotClock) :
    ∀ (n : Node buckets records) (waits frames : Nat),
      Drives true (n.burst clock waits frames).1 true
  | _, _, 0 => .done
  | _, _, 1 => .send .done
  | n, waits, frames + 2 => by
    rw [burst_add_two]
    exact .send (.wait (drives_burst clock _ (waits + 1) (frames + 1)))

/-- An active slot finds the radio off if it is to switch it on, and on otherwise. -/
theorem drives_perform (clock : SlotClock) (n : Node buckets records) (frames : Nat)
    (powerOn keepRadioOn : Bool) :
    Drives (!powerOn) (n.perform clock (.transmit frames powerOn keepRadioOn)).1 keepRadioOn := by
  have hon : Drives (!powerOn) (if powerOn then [.switchOn] else []) true := by
    cases powerOn with
    | false => exact .done
    | true => exact .switchOn .done
  have hoff : Drives true (if keepRadioOn then [] else [.switchOff]) keepRadioOn := by
    cases keepRadioOn with
    | false => exact .switchOff .done
    | true => exact .done
  rw [perform_transmit]
  exact (hon.append (drives_burst clock n 0 frames)).append hoff

/-- A burst sends announcements with one wait between two of them, and does nothing else. -/
theorem acts_burst (clock : SlotClock) :
    ∀ (n : Node buckets records) (waits frames : Nat),
      (n.burst clock waits frames).1 =
        ((n.announcements (fun k => clock.beforeFrame (waits + k)) frames).map .send).intersperse
          .wait
  | _, _, 0 => rfl
  | n, waits, 1 => by
    rw [announcements_beforeFrame_succ]
    rfl
  | n, waits, frames + 2 => by
    rw [burst_add_two, acts_burst clock _ (waits + 1) (frames + 1),
      announcements_beforeFrame_succ clock n, announcements_beforeFrame_succ clock _ (waits + 1)]
    rfl

theorem filter_burst (clock : SlotClock) :
    ∀ (n : Node buckets records) (waits frames : Nat),
      (n.burst clock waits frames).1.filter (!·.isSwitch) = (n.burst clock waits frames).1
  | _, _, 0 => rfl
  | _, _, 1 => rfl
  | n, waits, frames + 2 => by
    have hrest := filter_burst clock (n.stamp (clock.beforeFrame waits)).2 (waits + 1) (frames + 1)
    rw [burst_add_two]
    exact congrArg (List.cons _) (congrArg (List.cons _) hrest)

/-- The switches apart, an active slot is its burst. -/
theorem filter_perform (clock : SlotClock) (n : Node buckets records) (frames : Nat)
    (powerOn keepRadioOn : Bool) :
    (n.perform clock (.transmit frames powerOn keepRadioOn)).1.filter (!·.isSwitch) =
      (n.burst clock 0 frames).1 := by
  have hon : (if powerOn then [RadioAct.switchOn] else []).filter (!·.isSwitch) = [] := by
    cases powerOn <;> rfl
  have hoff : (if keepRadioOn then [] else [RadioAct.switchOff]).filter (!·.isSwitch) = [] := by
    cases keepRadioOn <;> rfl
  rw [perform_transmit, List.filter_append, List.filter_append, hon, hoff, filter_burst,
    List.nil_append, List.append_nil]

end Node

/-! ## Rigs -/

/-- A node with its radio, which is on or off. -/
structure Rig (buckets records : Nat) where
  node : Node buckets records
  radioOn : Bool := false
  deriving DecidableEq, Repr

namespace Rig

variable {buckets records : Nat}

/-- A rig that has just been switched on; its radio is off. -/
def start (buckets records : Nat) (id : NodeId) (settings : Settings) : Rig buckets records where
  node := .start buckets records id settings

/-- A call to a rig. -/
inductive Call where
  /-- A full slot is run. -/
  | runSlot (clock : SlotClock)
  /-- The schedule is stopped, and the radio is switched off. -/
  | stop
  /-- An announcement is received. -/
  | receive (r : Reception)
  /-- Peers are aged. -/
  | sweep (now : Tick)
  /-- A slot passes while the schedule is stopped. -/
  | idle (now : Tick)
  /-- The signal threshold is moved. -/
  | setMinRssi (minRssi : Int16)

/-- The call runs a slot. -/
def Call.isSlot : Call → Bool
  | runSlot _ => true
  | stop | receive _ | sweep _ | idle _ | setMinRssi _ => false

/-- What the node does to its radio in a slot. -/
def acts (rig : Rig buckets records) (clock : SlotClock) : List RadioAct :=
  (rig.node.runSlot clock).answer.acts

/-- Makes a call. -/
def call (rig : Rig buckets records) : Call → Rig buckets records
  | .runSlot clock =>
    { node := (rig.node.runSlot clock).state
      radioOn := (rig.acts clock).foldl RadioAct.power rig.radioOn }
  | .stop => { node := rig.node.stop, radioOn := false }
  | .receive r => { rig with node := (rig.node.receive r).state }
  | .sweep now => { rig with node := (rig.node.sweep now).state }
  | .idle now => { rig with node := (rig.node.idle now).state }
  | .setMinRssi minRssi => { rig with node := (rig.node.setMinRssi minRssi).state }

/-- Makes calls one after the other. -/
def run (rig : Rig buckets records) (calls : List Call) : Rig buckets records :=
  calls.foldl call rig

/-- The rig is where slot number `k` of the schedule begins. -/
structure Ready (rig : Rig buckets records) (schedule : Schedule) (k : Nat) : Prop where
  scheme_eq : rig.node.scheduler.scheme = schedule.scheme
  burst_eq : rig.node.scheduler.burst = schedule.burst
  slot_eq : rig.node.scheduler.slot % schedule.scheme.cycleLength = k % schedule.scheme.cycleLength
  /-- The node knows whether its radio is on. -/
  radioHeld_eq : rig.node.scheduler.radioHeld = rig.radioOn
  /-- The radio is on only for a slot that needs it. -/
  isActive_of_radioOn : rig.radioOn = true → schedule.scheme.isActive k = true

/-- What slot number `k` of a schedule, run at the readings of a clock, does to the radio. -/
structure Proper (rig : Rig buckets records) (schedule : Schedule) (k : Nat)
    (clock : SlotClock) : Prop where
  /-- The radio is on for all that is sent, and is switched on when off and off when on. -/
  drives : Drives rig.radioOn (rig.acts clock) (rig.call (.runSlot clock)).radioOn
  /-- An inactive slot finds the radio off and leaves it alone. -/
  inactive : schedule.scheme.isActive k = false → rig.radioOn = false ∧ rig.acts clock = []
  /-- An active slot sends a burst, with one wait between two announcements. -/
  active : schedule.scheme.isActive k = true →
    ∃ sent : List Announcement, sent.length = schedule.burst.toNat ∧
      (rig.acts clock).filter (!·.isSwitch) = (sent.map .send).intersperse .wait
  /-- The radio stays on exactly between two active slots. -/
  power : (rig.call (.runSlot clock)).radioOn =
    (schedule.scheme.isActive k && schedule.scheme.isActive (k + 1))

namespace Ready

variable {rig : Rig buckets records} {schedule : Schedule} {k : Nat}

theorem start (buckets records : Nat) (id : NodeId) (settings : Settings) :
    (Rig.start buckets records id settings).Ready settings.schedule 0 where
  scheme_eq := rfl
  burst_eq := rfl
  slot_eq := rfl
  radioHeld_eq := rfl
  isActive_of_radioOn h := absurd h Bool.false_ne_true

/-- The slot that begins next is active if slot number `k` is. -/
theorem isActive_slot (h : rig.Ready schedule k) :
    rig.node.scheduler.scheme.isActive rig.node.scheduler.slot = schedule.scheme.isActive k := by
  rw [h.scheme_eq, ← SlotScheme.isActive_mod, h.slot_eq, SlotScheme.isActive_mod]

/-- The slot after it is number `k + 1`. -/
theorem nextSlot_eq (h : rig.Ready schedule k) :
    rig.node.scheduler.nextSlot = (k + 1) % schedule.scheme.cycleLength := by
  rw [Scheduler.nextSlot, h.scheme_eq, ← Nat.mod_add_mod, h.slot_eq, Nat.mod_add_mod]

theorem isActive_nextSlot (h : rig.Ready schedule k) :
    rig.node.scheduler.scheme.isActive rig.node.scheduler.nextSlot =
      schedule.scheme.isActive (k + 1) := by
  rw [h.scheme_eq, h.nextSlot_eq, SlotScheme.isActive_mod]

/-- Calls that leave the schedule and the radio alone do not matter. -/
theorem of_scheduler_eq (h : rig.Ready schedule k) {next : Node buckets records}
    (hnext : next.scheduler = rig.node.scheduler) :
    Rig.Ready { rig with node := next } schedule k where
  scheme_eq := hnext ▸ h.scheme_eq
  burst_eq := hnext ▸ h.burst_eq
  slot_eq := hnext ▸ h.slot_eq
  radioHeld_eq := hnext ▸ h.radioHeld_eq
  isActive_of_radioOn := h.isActive_of_radioOn

/-- The acts of an active slot. -/
theorem acts_of_active (h : rig.Ready schedule k) (hk : schedule.scheme.isActive k = true)
    (clock : SlotClock) :
    rig.acts clock =
      (rig.node.advance.2.perform clock (.transmit schedule.burst.toNat (!rig.radioOn)
        (schedule.scheme.isActive (k + 1)))).1 := by
  have haction : rig.node.scheduler.action =
      .transmit schedule.burst.toNat (!rig.radioOn) (schedule.scheme.isActive (k + 1)) := by
    rw [Scheduler.action, h.isActive_slot, if_pos hk, h.burst_eq, h.radioHeld_eq,
      h.isActive_nextSlot]
  rw [← haction]
  rfl

/-- An inactive slot does nothing to the radio. -/
theorem acts_of_inactive (h : rig.Ready schedule k) (hk : schedule.scheme.isActive k = false)
    (clock : SlotClock) : rig.acts clock = [] := by
  have haction : rig.node.scheduler.action = .idle := by
    rw [Scheduler.action, h.isActive_slot, hk, if_neg Bool.false_ne_true]
  have hacts : rig.acts clock =
      (rig.node.advance.2.perform clock rig.node.scheduler.action).1 := rfl
  rw [hacts, haction]
  rfl

/-- An inactive slot finds the radio off. -/
theorem radioOn_of_inactive (h : rig.Ready schedule k) (hk : schedule.scheme.isActive k = false) :
    rig.radioOn = false := by
  refine Bool.eq_false_iff.mpr fun hon => ?_
  rw [h.isActive_of_radioOn hon] at hk
  cases hk

/-- A slot does to the radio what the radio can do, and leaves it on between two active slots. -/
theorem drives (h : rig.Ready schedule k) (clock : SlotClock) :
    Drives rig.radioOn (rig.acts clock)
      (schedule.scheme.isActive k && schedule.scheme.isActive (k + 1)) := by
  cases hk : schedule.scheme.isActive k with
  | false =>
    rw [h.acts_of_inactive hk, h.radioOn_of_inactive hk]
    exact .done
  | true =>
    have hperform := rig.node.advance.2.drives_perform clock schedule.burst.toNat (!rig.radioOn)
      (schedule.scheme.isActive (k + 1))
    rw [Bool.not_not] at hperform
    rw [h.acts_of_active hk]
    exact hperform

theorem radioOn_runSlot (h : rig.Ready schedule k) (clock : SlotClock) :
    (rig.call (.runSlot clock)).radioOn =
      (schedule.scheme.isActive k && schedule.scheme.isActive (k + 1)) :=
  (h.drives clock).foldl_power

/-- Slot number `k` is a proper one. -/
theorem proper (h : rig.Ready schedule k) (clock : SlotClock) : rig.Proper schedule k clock where
  drives := by
    rw [h.radioOn_runSlot]
    exact h.drives clock
  inactive hk := ⟨h.radioOn_of_inactive hk, h.acts_of_inactive hk clock⟩
  active hk := by
    refine ⟨rig.node.advance.2.announcements clock.beforeFrame schedule.burst.toNat,
      Node.length_announcements _ _ _, ?_⟩
    rw [h.acts_of_active hk, Node.filter_perform, Node.acts_burst]
    simp only [Nat.zero_add]
  power := h.radioOn_runSlot clock

/-- Slot number `k` is followed by slot number `k + 1`. -/
theorem runSlot (h : rig.Ready schedule k) (clock : SlotClock) :
    (rig.call (.runSlot clock)).Ready schedule (k + 1) := by
  obtain ⟨sequence, hnext⟩ : ∃ sequence, (rig.call (.runSlot clock)).node.scheduler =
      { rig.node.scheduler.step with sequence } :=
    ⟨_, rig.node.scheduler_runSlot clock⟩
  refine ⟨?_, ?_, ?_, ?_, ?_⟩
  · rw [hnext]
    exact h.scheme_eq
  · rw [hnext]
    exact h.burst_eq
  · rw [hnext, Scheduler.slot_step, h.nextSlot_eq, Nat.mod_mod]
  · rw [hnext, Scheduler.radioHeld_step, Scheduler.slot_step, h.isActive_slot,
      h.isActive_nextSlot, h.radioOn_runSlot]
  · intro hon
    rw [h.radioOn_runSlot] at hon
    exact (Bool.and_eq_true_iff.mp hon).2

/-- Stopping keeps the place in the schedule, and the node hears of the radio being switched off. -/
theorem stop (h : rig.Ready schedule k) : (rig.call .stop).Ready schedule k where
  scheme_eq := h.scheme_eq
  burst_eq := h.burst_eq
  slot_eq := h.slot_eq
  radioHeld_eq := rfl
  isActive_of_radioOn hon := absurd hon Bool.false_ne_true

/-- Of all calls only slots move a rig on in the schedule. -/
theorem call (h : rig.Ready schedule k) (c : Call) :
    (rig.call c).Ready schedule (k + if c.isSlot then 1 else 0) := by
  cases c with
  | runSlot clock => exact h.runSlot clock
  | stop => exact h.stop
  | receive r => exact h.of_scheduler_eq (rig.node.scheduler_receive r)
  | sweep now => exact h.of_scheduler_eq (rig.node.scheduler_sweep now)
  | idle now => exact h.of_scheduler_eq (rig.node.scheduler_idle now)
  | setMinRssi minRssi => exact h.of_scheduler_eq rfl

theorem run (calls : List Call) :
    ∀ {rig : Rig buckets records} {k : Nat}, rig.Ready schedule k →
      (rig.run calls).Ready schedule (k + calls.countP Call.isSlot) := by
  induction calls with
  | nil => exact fun {rig k} h => h
  | cons c calls ih =>
    intro rig k h
    have hrest := ih (h.call c)
    rw [List.countP_cons, Nat.add_comm (calls.countP Call.isSlot), ← Nat.add_assoc]
    exact hrest

end Ready

/-- **The radio is on when it has to be.**  From a rig that has just been switched on, with any
settings and after any calls, the next slot is a proper one, whatever the clock shows. -/
theorem run_proper (buckets records : Nat) (id : NodeId) (settings : Settings) (calls : List Call)
    (clock : SlotClock) :
    ((start buckets records id settings).run calls).Proper settings.schedule
      (calls.countP Call.isSlot) clock := by
  have hready := (Ready.start buckets records id settings).run calls
  rw [Nat.zero_add] at hready
  exact hready.proper clock

end Rig

end PeerBeacon
