import PeerBeacon.Proofs.Tracker.Diary
import PeerBeacon.Proofs.Tracker.Shift

/-!
# The order of arrival

Readings of the clock go around in a circle, and "later" is no order on a circle: of three readings
that are spread over it, each can be later than the one before.  So what a tracker remembers as the
last reception of a peer, the later one of two at each reception, may depend on the order in which
the receptions come in.  Half the range of the clock is enough for that
(`Peer.foldl_later_half`).

Below half the range it never happens (`Tracker.run_lastHeard_latest`).  Seen from the beginning of
a span that is shorter, the readings in it are numbers, and of two of them the one with the larger
number is the later one, wherever in the span the clock rolls over (`Peer.later_eq_ite`).  So the
last reception is the latest in the span (`Tick.IsLatest`), and there is only one
(`Tick.IsLatest.unique`).
-/

namespace PeerBeacon

/-! ## Readings seen from a base -/

namespace Tick

/-- The number of seconds from `base` on to a reading. -/
def offset (base x : Tick) : Nat :=
  (x - base).toNat

/-- The reading `x` is the latest of some readings, seen from `base`. -/
structure IsLatest (base : Tick) (readings : List Tick) (x : Tick) : Prop where
  mem : x ∈ readings
  offset_le : ∀ y ∈ readings, offset base y ≤ offset base x

variable {base x y : Tick}

/-- A reading is given by its offset. -/
theorem ofNat_add_offset (base x : Tick) : UInt32.ofNat (base.toNat + offset base x) = x := by
  rw [← UInt32.toNat_inj, UInt32.toNat_ofNat', offset, UInt32.toNat_sub]
  have hbase := base.toNat_lt
  have hx := x.toNat_lt
  omega

theorem offset_inj : offset base x = offset base y ↔ x = y := by
  refine ⟨fun h => ?_, congrArg (offset base)⟩
  rw [← ofNat_add_offset base x, h, ofNat_add_offset]

namespace IsLatest

variable {readings readings' : List Tick}

theorem unique (hx : IsLatest base readings x) (hy : IsLatest base readings y) : x = y :=
  offset_inj.mp (Nat.le_antisymm (hy.offset_le x hx.mem) (hx.offset_le y hy.mem))

theorem of_perm (h : IsLatest base readings x) (hperm : readings.Perm readings') :
    IsLatest base readings' x where
  mem := hperm.mem_iff.mp h.mem
  offset_le y hy := h.offset_le y (hperm.mem_iff.mpr hy)

/-- Adding a reading that some other one does not lie behind changes nothing. -/
theorem cons (h : IsLatest base readings x)
    (hlate : ∃ z ∈ readings, offset base y ≤ offset base z) : IsLatest base (y :: readings) x where
  mem := List.mem_cons_of_mem y h.mem
  offset_le z hz := by
    rcases List.mem_cons.mp hz with rfl | hmem
    · obtain ⟨w, hw, hle⟩ := hlate
      exact hle.trans (h.offset_le w hw)
    · exact h.offset_le z hmem

/-- Leaving such a reading out changes nothing. -/
theorem of_cons (h : IsLatest base (y :: readings) x)
    (hlate : ∃ z ∈ readings, offset base y ≤ offset base z) : IsLatest base readings x where
  mem := by
    rcases List.mem_cons.mp h.mem with rfl | hmem
    · obtain ⟨z, hz, hle⟩ := hlate
      have hge := h.offset_le z (List.mem_cons_of_mem x hz)
      rwa [offset_inj.mp (Nat.le_antisymm hle hge)]
    · exact hmem
  offset_le z hz := h.offset_le z (List.mem_cons_of_mem y hz)

end IsLatest

end Tick

/-! ## The later one of two readings -/

namespace Peer

variable {base last heard : Tick}

/-- In less than half the range, the later one of two readings is the one with the larger
offset. -/
theorem later_eq_ite (hlast : Tick.offset base last < 2 ^ 31)
    (hheard : Tick.offset base heard < 2 ^ 31) :
    later last heard =
      if Tick.offset base heard ≤ Tick.offset base last then last else heard := by
  have hmax := Tick.latest_ofNat_max (s := base.toNat + Tick.offset base last)
    (x := base.toNat + Tick.offset base heard) (by omega) (by omega)
  rw [Nat.add_max_add_left, Tick.ofNat_add_offset, Tick.ofNat_add_offset, latest_some] at hmax
  rw [hmax]
  split_ifs with hle
  · rw [Nat.max_eq_left hle, Tick.ofNat_add_offset]
  · rw [Nat.max_eq_right (Nat.le_of_not_le hle), Tick.ofNat_add_offset]

/-- In less than half the range, whatever is heard in whatever order, the latest reading is kept. -/
theorem isLatest_foldl_later (readings : List Tick) :
    ∀ {last : Tick}, (∀ x ∈ last :: readings, Tick.offset base x < 2 ^ 31) →
      Tick.IsLatest base (last :: readings) (readings.foldl later last) := by
  induction readings with
  | nil =>
    intro last _
    exact ⟨List.mem_singleton_self last, by simp⟩
  | cons heard readings ih =>
    intro last hwithin
    obtain ⟨hlast, hheard, hrest⟩ :
        Tick.offset base last < 2 ^ 31 ∧ Tick.offset base heard < 2 ^ 31 ∧
          ∀ x ∈ readings, Tick.offset base x < 2 ^ 31 := by
      simpa using hwithin
    have hlater := later_eq_ite hlast hheard
    rw [List.foldl_cons, hlater]
    -- The one of the two that is dropped is no later than the one that is kept.
    split_ifs with hle
    · have hkept := ih (List.forall_mem_cons.mpr ⟨hlast, hrest⟩)
      have hboth := hkept.cons ⟨last, List.mem_cons_self, hle⟩
      exact hboth.of_perm (.swap last heard readings)
    · have hkept := ih (List.forall_mem_cons.mpr ⟨hheard, hrest⟩)
      exact hkept.cons ⟨heard, List.mem_cons_self, Nat.le_of_not_le hle⟩

theorem later_add (last heard shift : Tick) :
    later (last + shift) (heard + shift) = later last heard + shift :=
  Tick.latest_add (some last) heard shift

/-- Half the range is too much: a peer that was last heard at `base` is heard one second later, and
half the range later, and either of these is kept if it is the last to come in. -/
theorem foldl_later_half (base : Tick) :
    [0x80000000 + base, 1 + base].foldl later base = 1 + base ∧
      [1 + base, 0x80000000 + base].foldl later base = 0x80000000 + base := by
  have hshift := fun x y => later_add x y base
  have hzero : later base = later (0 + base) := by rw [UInt32.zero_add]
  simp only [List.foldl_cons, List.foldl_nil, hzero, hshift]
  exact ⟨rfl, rfl⟩

end Peer

/-! ## Calls without sweeps -/

namespace Tracker

variable {limits : Thresholds} {id : NodeId}

/-- The reading at which a call hears the peer `id`, if it does. -/
def Call.readings (limits : Thresholds) (id : NodeId) (call : Call) : List Tick :=
  match call with
  | .receive _ _ heard => if call.hears limits id then [heard] else []
  | .sweep _ | .setMinRssi _ => []

/-- The readings at which the peer `id` is heard, if the thresholds are `limits` at first. -/
def readings (id : NodeId) (limits : Thresholds) : List Call → List Tick
  | [] => []
  | call :: calls => call.readings limits id ++ readings id (call.adjust limits) calls

/-- As long as the signal threshold stays, each call is read by itself. -/
theorem readings_eq_flatMap {calls : List Call} (steady : ∀ minRssi, .setMinRssi minRssi ∉ calls) :
    readings id limits calls = calls.flatMap (Call.readings limits id) := by
  induction calls with
  | nil => rfl
  | cons call calls ih =>
    have hsame : call.adjust limits = limits := by
      cases call with
      | setMinRssi minRssi => exact absurd List.mem_cons_self (steady minRssi)
      | receive | sweep => rfl
    rw [readings, hsame, List.flatMap_cons,
      ih fun minRssi hmem => steady minRssi (List.mem_cons_of_mem call hmem)]

/-- Reordering such calls reorders the readings. -/
theorem perm_readings {calls calls' : List Call} (hperm : calls.Perm calls')
    (steady : ∀ minRssi, .setMinRssi minRssi ∉ calls) :
    (readings id limits calls).Perm (readings id limits calls') := by
  rw [readings_eq_flatMap steady,
    readings_eq_flatMap fun minRssi hmem => steady minRssi (hperm.mem_iff.mpr hmem)]
  exact hperm.flatMap_right _

theorem Call.readings_of_unheard {call : Call} (h : call.hears limits id = false) :
    call.readings limits id = [] := by
  cases call with
  | receive source rssi heard =>
    rw [Call.readings, h]
    rfl
  | sweep now => rfl
  | setMinRssi minRssi => rfl

end Tracker

namespace Peer

variable {limits : Thresholds} {id : NodeId} {call : Tracker.Call} {events : List Event} {p : Peer}
  {q? : Option Peer}

/-- Without a sweep a known peer stays known, and its last reception is the later one of the last
one before and the one that there is, if any. -/
theorem Turn.last_of_unswept (h : Turn limits id call (some p) events q?)
    (unswept : ∀ now, call ≠ .sweep now) :
    q?.map last = some ((call.readings limits id).foldl later p.last) := by
  cases h with
  | pass unheard _ =>
    rw [Tracker.Call.readings_of_unheard unheard]
    rfl
  | @hear rssi heard _ qualified =>
    have hears : (Tracker.Call.receive id rssi heard).hears limits id = true := by
      rw [Tracker.Call.hears, qualified, beq_self_eq_true]
      rfl
    rw [Tracker.Call.readings, if_pos hears, Option.map_some, Option.getD_some, last_hear]
    rfl
  | @age now => exact absurd rfl (unswept now)

end Peer

namespace Tracker

variable {buckets records : Nat} {t : Tracker buckets records} {c : Census} {id : NodeId}
  {last : Tick}

/-- The last reception of a peer, if it is known. -/
def lastHeard? (t : Tracker buckets records) (id : NodeId) : Option Tick :=
  (t.roster.get? id).bind Record.lastHeard

theorem Mirrors.lastHeard?_eq (h : t.Mirrors c) (id : NodeId) :
    t.lastHeard? id = (c.peers.get? id).map Peer.last := by
  rw [lastHeard?, h.holds.get?_eq, Option.bind_map]
  cases c.peers.get? id with
  | none => rfl
  | some p => exact Peer.lastHeard_record id p

theorem Mirrors.lastHeard?_call {call : Call} (h : t.Mirrors c)
    (known : t.lastHeard? id = some last) (unswept : ∀ now, call ≠ .sweep now) :
    (t.call call).1.lastHeard? id =
      some ((call.readings t.thresholds id).foldl Peer.later last) := by
  obtain ⟨d, hstep, hd⟩ := h.exists_step call
  rw [h.lastHeard?_eq, Option.map_eq_some_iff] at known
  obtain ⟨p, hp, rfl⟩ := known
  have hturn := hstep.turn id
  rw [hp] at hturn
  rw [hd.lastHeard?_eq, h.thresholds_eq]
  exact hturn.last_of_unswept unswept

/-- Without sweeps, the last reception is the later one of two at each reception. -/
theorem Mirrors.lastHeard?_run (calls : List Call) :
    ∀ {t : Tracker buckets records} {c : Census} {last : Tick}, t.Mirrors c →
      t.lastHeard? id = some last → (∀ now, .sweep now ∉ calls) →
        (t.run calls).1.lastHeard? id =
          some ((readings id t.thresholds calls).foldl Peer.later last) := by
  induction calls with
  | nil => exact fun _ known _ => known
  | cons call calls ih =>
    intro t c last h known unswept
    obtain ⟨d, -, hd⟩ := h.exists_step call
    have hother : ∀ now, call ≠ .sweep now := fun now heq =>
      unswept now (heq ▸ List.mem_cons_self)
    have hfirst := h.lastHeard?_call known hother
    have hrest := ih hd hfirst fun now hmem => unswept now (List.mem_cons_of_mem call hmem)
    rw [thresholds_call] at hrest
    rw [readings, List.foldl_append]
    exact hrest

/-- **The order of arrival does not matter.**  Suppose that a tracker knows a peer, and that the
last reception of the peer and some other times lie in a span of the clock from `base` on that is
shorter than half the range.  If the peer is heard at these times, in any order, then its last
reception is the latest of all of them, and of the new ones alone if one of these does not lie
behind the last reception before.  Other receptions, and changes of the signal threshold, may come
in between, but no sweep. -/
theorem run_lastHeard_latest (buckets records : Nat) (limits : Thresholds) (calls : List Call)
    {id : NodeId} {last base : Tick} {width : Nat} {times : List Tick} (hwidth : width < 2 ^ 31)
    (known : ((start buckets records limits).run calls).1.lastHeard? id = some last)
    (within : ∀ x ∈ last :: times, Tick.offset base x ≤ width) :
    let t := ((start buckets records limits).run calls).1
    ∃ latest, Tick.IsLatest base (last :: times) latest ∧
      ((∃ x ∈ times, Tick.offset base last ≤ Tick.offset base x) →
        Tick.IsLatest base times latest) ∧
      ∀ arrivals, (∀ now, .sweep now ∉ arrivals) →
        (readings id t.thresholds arrivals).Perm times →
          (t.run arrivals).1.lastHeard? id = some latest := by
  obtain ⟨c, -, hc⟩ := Mirrors.exists_run calls (Mirrors.start buckets records limits)
  have hshort : ∀ x ∈ last :: times, Tick.offset base x < 2 ^ 31 :=
    fun x hx => (within x hx).trans_lt hwidth
  have hlatest := Peer.isLatest_foldl_later times hshort
  refine ⟨_, hlatest, hlatest.of_cons, fun arrivals unswept hperm => ?_⟩
  have htimes := hperm.cons last
  have hfold := Peer.isLatest_foldl_later _ fun x hx => hshort x (htimes.mem_iff.mp hx)
  rw [hc.lastHeard?_run arrivals known unswept]
  exact congrArg some ((hfold.of_perm htimes).unique hlatest)

/-- Receptions around the time at which the clock rolls over, one of them too weak to count. -/
def scattered : List Call :=
  [.receive 7 (-50) 5, .receive 9 (-50) 3, .receive 7 (-50) 4294967285, .receive 7 (-90) 20,
    .receive 7 (-65) 12, .receive 7 (-50) 2]

/-- Whatever the order in which they arrive, the one at `12` is the last. -/
theorem run_lastHeard_latest_scattered :
    40 < 2 ^ 31 ∧
      ((start 4 3 {}).run [.receive 7 (-50) 4294967290]).1.lastHeard? 7 = some 4294967290 ∧
      (∀ x ∈ ([4294967290, 5, 4294967285, 12, 2] : List Tick),
        Tick.offset 4294967280 x ≤ 40) ∧
      ∀ arrivals, arrivals.Perm scattered →
        (((start 4 3 {}).run [.receive 7 (-50) 4294967290]).1.run arrivals).1.lastHeard? 7 =
          some 12 := by
  have known : ((start 4 3 {}).run [.receive 7 (-50) 4294967290]).1.lastHeard? 7 =
      some 4294967290 := by
    decide
  have within : ∀ x ∈ ([4294967290, 5, 4294967285, 12, 2] : List Tick),
      Tick.offset 4294967280 x ≤ 40 := by
    simp [Tick.offset]
  obtain ⟨latest, hlatest, -, hrun⟩ := run_lastHeard_latest 4 3 {} [.receive 7 (-50) 4294967290]
    (by decide) known within
  obtain rfl : latest = 12 := hlatest.unique ⟨by simp, by simp [Tick.offset]⟩
  refine ⟨by decide, known, within, fun arrivals hperm => hrun arrivals ?_ ?_⟩
  · intro now hmem
    exact absurd (hperm.mem_iff.mp hmem) (by simp [scattered])
  · exact (perm_readings hperm.symm (by simp [scattered])).symm

end Tracker

end PeerBeacon
