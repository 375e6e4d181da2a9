import Mathlib.Algebra.Group.Nat.Defs
import Mathlib.Data.Nat.Find
import PeerBeacon.Tick

/-!
# Readings of a running clock

A clock that runs on counts seconds without bound, and a reading keeps the count modulo `2 ^ 32`.
Two readings say how much time lies between them as long as that is less than half the range,
however often the clock has rolled over (`Tick.toNat_elapsed_ofNat`).

Slots of a fixed length begin at `slotSeconds`, rounded down to whole seconds; the rounding never
makes a span of slots longer than the whole seconds that it fits into
(`slotSeconds_le_of_le_add`).
-/

namespace PeerBeacon

namespace Tick

/-- The span between two readings of a clock that has run on for less than half the range. -/
theorem toNat_elapsed_ofNat {earlier later : Nat} (hle : earlier ≤ later)
    (hlt : later < earlier + 2 ^ 31) :
    (elapsed (UInt32.ofNat later) (UInt32.ofNat earlier)).toNat = later - earlier := by
  have hdiff : (UInt32.ofNat later - UInt32.ofNat earlier).toNat = later - earlier := by
    rw [UInt32.toNat_sub, UInt32.toNat_ofNat', UInt32.toNat_ofNat']
    omega
  have hspan : ¬0x7FFFFFFF < UInt32.ofNat later - UInt32.ofNat earlier := by
    rw [UInt32.lt_iff_toNat_lt, hdiff]
    have hhalf : (0x7FFFFFFF : UInt32).toNat = 2 ^ 31 - 1 := rfl
    omega
  rw [elapsed, if_neg hspan, hdiff]

/-- Whether a span between two such readings is over can be told from the seconds. -/
theorem le_elapsed_ofNat_iff {earlier later : Nat} (hle : earlier ≤ later)
    (hlt : later < earlier + 2 ^ 31) (span : UInt32) :
    span ≤ elapsed (UInt32.ofNat later) (UInt32.ofNat earlier) ↔
      earlier + span.toNat ≤ later := by
  rw [UInt32.le_iff_toNat_le, toNat_elapsed_ofNat hle hlt, Nat.le_sub_iff_add_le' hle]

/-- On a clock that has run on for less than half the range, a new reading is the latest one. -/
theorem latest_ofNat {earlier later : Nat} (hle : earlier ≤ later)
    (hlt : later < earlier + 2 ^ 31) :
    latest (some (UInt32.ofNat earlier)) (UInt32.ofNat later) = UInt32.ofNat later := by
  have helapsed := toNat_elapsed_ofNat hle hlt
  rw [latest_some]
  split
  · next hzero =>
    rw [hzero] at helapsed
    have hsame : later - earlier = 0 := helapsed.symm
    rw [Nat.le_antisymm hle (Nat.sub_eq_zero_iff_le.mp hsame)]
  · rfl

/-- A reading that does not lie ahead of another one, by less than half the range, is no time after
it. -/
theorem elapsed_ofNat_of_le {earlier later : Nat} (hle : earlier ≤ later)
    (hlt : later < earlier + 2 ^ 31) :
    elapsed (UInt32.ofNat earlier) (UInt32.ofNat later) = 0 := by
  rcases Nat.eq_or_lt_of_le hle with rfl | hbehind
  · exact elapsed_self _
  · have hdiff : (UInt32.ofNat earlier - UInt32.ofNat later).toNat =
        2 ^ 32 - (later - earlier) := by
      rw [UInt32.toNat_sub, UInt32.toNat_ofNat', UInt32.toNat_ofNat']
      omega
    have hspan : 0x7FFFFFFF < UInt32.ofNat earlier - UInt32.ofNat later := by
      rw [UInt32.lt_iff_toNat_lt, hdiff]
      have hhalf : (0x7FFFFFFF : UInt32).toNat = 2 ^ 31 - 1 := rfl
      omega
    rw [elapsed, if_pos hspan]

/-- Of two readings that are less than half the range apart the later one is the latest one,
whichever comes first. -/
theorem latest_ofNat_max {s x : Nat} (hs : s < x + 2 ^ 31) (hx : x < s + 2 ^ 31) :
    latest (some (UInt32.ofNat s)) (UInt32.ofNat x) = UInt32.ofNat (max s x) := by
  rcases Nat.le_total s x with hle | hle
  · rw [latest_ofNat hle hx, Nat.max_eq_right hle]
  · rw [latest_some, if_pos (elapsed_ofNat_of_le hle hs), Nat.max_eq_left hle]

end Tick

/-! ## Slots on the clock -/

/-- The second in which a slot begins, for slots of `micros` microseconds counted from zero. -/
def slotSeconds (micros slot : Nat) : Nat :=
  slot * micros / 1000000

/-- The reading of the clock when a slot begins. -/
def slotTick (micros slot : Nat) : Tick :=
  UInt32.ofNat (slotSeconds micros slot)

variable {micros : Nat}

@[simp] theorem slotSeconds_zero (micros : Nat) : slotSeconds micros 0 = 0 := by
  rw [slotSeconds, Nat.zero_mul, Nat.zero_div]

theorem slotSeconds_mono (micros : Nat) {i j : Nat} (h : i ≤ j) :
    slotSeconds micros i ≤ slotSeconds micros j :=
  Nat.div_le_div_right (Nat.mul_le_mul_right micros h)

/-- If some number of slots fits into `span` seconds, so many slots take the clock on by at most
`span` seconds. -/
theorem slotSeconds_le_of_le_add {i j slots span : Nat} (hfit : slots * micros ≤ span * 1000000)
    (h : j ≤ i + slots) : slotSeconds micros j ≤ slotSeconds micros i + span := by
  have hmicros : j * micros ≤ i * micros + span * 1000000 :=
    calc j * micros ≤ (i + slots) * micros := Nat.mul_le_mul_right micros h
      _ = i * micros + slots * micros := Nat.add_mul i slots micros
      _ ≤ i * micros + span * 1000000 := Nat.add_le_add_left hfit _
  calc slotSeconds micros j ≤ (i * micros + span * 1000000) / 1000000 :=
        Nat.div_le_div_right hmicros
    _ = slotSeconds micros i + span := Nat.add_mul_div_right _ _ (by decide)

/-- Slots that take any time at all come to every second at last, and there is a first one that
does. -/
theorem exists_first_slot (hmicros : 0 < micros) (bound : Nat) :
    ∃ j, bound ≤ slotSeconds micros j ∧ ∀ i < j, slotSeconds micros i < bound := by
  have hexists : ∃ j, bound ≤ slotSeconds micros j := by
    refine ⟨bound * 1000000, ?_⟩
    rw [slotSeconds, Nat.le_div_iff_mul_le (by decide)]
    exact Nat.le_mul_of_pos_right _ hmicros
  exact ⟨Nat.find hexists, Nat.find_spec hexists,
    fun i hi => Nat.lt_of_not_le (Nat.find_min hexists hi)⟩

theorem toNat_slotTick {j : Nat} (h : slotSeconds micros j < 2 ^ 32) :
    (slotTick micros j).toNat = slotSeconds micros j := by
  rw [slotTick, UInt32.toNat_ofNat', Nat.mod_eq_of_lt h]

/-- The span between two slots on the clock. -/
theorem toNat_elapsed_slotTick {i j : Nat} (h : i ≤ j)
    (hlt : slotSeconds micros j < slotSeconds micros i + 2 ^ 31) :
    (Tick.elapsed (slotTick micros j) (slotTick micros i)).toNat =
      slotSeconds micros j - slotSeconds micros i :=
  Tick.toNat_elapsed_ofNat (slotSeconds_mono micros h) hlt

end PeerBeacon
