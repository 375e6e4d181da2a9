/-!
# Slot schemes

Time is cut into slots that repeat in cycles, and a node keeps its radio off in all but a few slots
of each cycle.  A scheme says which slots those are.

* A *coprime* scheme is active in the slots that one of its two periods divides.
* A *grid* scheme arranges the cycle as a square matrix and is active in one row and one column.

Both are meant to let two nodes meet without agreeing on where a cycle starts.  Only the shape of a
scheme is fixed here; a scheme with a zero period, a zero dimension or a coordinate outside the
grid is a value like any other, and `SlotScheme.isActive` says how it behaves.
-/

namespace PeerBeacon

/-- Which slots of a cycle are active. -/
inductive SlotScheme where
  /-- Active in the slots that `p₁` or `p₂` divides. -/
  | coprime (p₁ p₂ : UInt16)
  /-- Active in row `row` and column `column` of a square matrix of slots. -/
  | grid (dim row column : UInt16)
  deriving DecidableEq, Repr

namespace SlotScheme

/-- The grid whose coordinates are the two lowest base-`dim` digits of a seed, column above row. -/
def ofSeed (dim : UInt16) (seed : UInt32) : SlotScheme :=
  let base := max 1 dim.toNat
  grid dim (UInt16.ofNat (seed.toNat % base)) (UInt16.ofNat (seed.toNat / base % base))

/-- The number of slots in a cycle, at least one. -/
def cycleLength : SlotScheme → Nat
  | coprime p₁ p₂ => max 1 (p₁.toNat * p₂.toNat)
  | grid dim _ _ => max 1 (dim.toNat * dim.toNat)

theorem cycleLength_pos (s : SlotScheme) : 0 < s.cycleLength := by
  cases s <;> simp only [cycleLength] <;> omega

theorem toNat_pos {p : UInt16} (h : p ≠ 0) : 0 < p.toNat :=
  UInt16.lt_iff_toNat_lt.mp (UInt16.pos_iff_ne_zero.mpr h)

theorem toNat_mul_toNat_lt (p q : UInt16) : p.toNat * q.toNat < UInt32.size :=
  calc p.toNat * q.toNat < UInt16.size * UInt16.size := Nat.mul_lt_mul'' p.toNat_lt q.toNat_lt
    _ = UInt32.size := rfl

/-- The length of a cycle fits into 32 bits. -/
theorem cycleLength_lt (s : SlotScheme) : s.cycleLength < UInt32.size := by
  cases s with
  | coprime p₁ p₂ => exact Nat.max_lt.mpr ⟨by decide, toNat_mul_toNat_lt p₁ p₂⟩
  | grid dim row column => exact Nat.max_lt.mpr ⟨by decide, toNat_mul_toNat_lt dim dim⟩

/-- Whether a position within the cycle is active. -/
def isActiveAt (position : Nat) : SlotScheme → Bool
  | coprime p₁ p₂ =>
    p₁ != 0 && p₂ != 0 && (position % p₁.toNat == 0 || position % p₂.toNat == 0)
  | grid dim row column =>
    dim != 0 && (position / dim.toNat == row.toNat || position % dim.toNat == column.toNat)

/-- Whether a slot is active, counting slots through any number of cycles. -/
def isActive (s : SlotScheme) (slot : Nat) : Bool :=
  s.isActiveAt (slot % s.cycleLength)

/-- The number of active slots in one cycle. -/
def activePerCycle (s : SlotScheme) : Nat :=
  (List.range s.cycleLength).countP s.isActive

theorem isActive_mod (s : SlotScheme) (slot : Nat) :
    s.isActive (slot % s.cycleLength) = s.isActive slot := by
  simp [isActive]

/-- The pattern of active slots repeats with the cycle. -/
theorem isActive_add_cycleLength (s : SlotScheme) (slot : Nat) :
    s.isActive (slot + s.cycleLength) = s.isActive slot := by
  simp [isActive]

theorem isActive_of_lt (s : SlotScheme) {slot : Nat} (h : slot < s.cycleLength) :
    s.isActive slot = s.isActiveAt slot := by
  rw [isActive, Nat.mod_eq_of_lt h]

end SlotScheme

end PeerBeacon
