/-!
# Wrapping seconds

A clock reading is a count of whole seconds in 32 bits, so it rolls over after about 136 years and
two readings can only be compared through their difference.  A difference in the lower half of the
range is a span of time; one in the upper half means that the earlier reading in fact lies ahead
(timer jitter, a sweep racing a reception), and such a span reads as zero.

Every rule of the library that depends on time goes through `Tick.elapsed`, which is why shifting
all readings by one constant changes nothing (`Tick.elapsed_add`).
-/

namespace PeerBeacon

/-- A clock reading in whole seconds, modulo `2 ^ 32`. -/
abbrev Tick := UInt32

namespace Tick

/-- Seconds from `since` to `now`, zero when `since` lies ahead of `now`. -/
def elapsed (now since : Tick) : UInt32 :=
  if 0x7FFFFFFF < now - since then 0 else now - since

/-- At least `threshold` seconds have passed from `since` to `now`. -/
def reached (now since : Tick) (threshold : UInt32) : Bool :=
  decide (threshold ≤ elapsed now since)

/-- The later of a remembered reading and a new one; the new one wins unless it is equal to the
remembered one or lies behind it. -/
def latest (previous : Option Tick) (heard : Tick) : Tick :=
  match previous with
  | none => heard
  | some earlier => if elapsed heard earlier = 0 then earlier else heard

@[simp] theorem elapsed_self (now : Tick) : elapsed now now = 0 := by
  simp [elapsed]

/-- Rolling both readings on by the same amount leaves the span as it is. -/
theorem elapsed_add (now since shift : Tick) :
    elapsed (now + shift) (since + shift) = elapsed now since := by
  have h : now + shift - (since + shift) = now - since := by
    rw [UInt32.sub_eq_add_neg, UInt32.neg_add, UInt32.sub_eq_add_neg (a := -since),
      UInt32.add_assoc, UInt32.add_comm (-since), ← UInt32.add_assoc shift,
      UInt32.add_right_neg, UInt32.zero_add, ← UInt32.sub_eq_add_neg]
  simp only [elapsed, h]

/-- A span never exceeds the half range. -/
theorem elapsed_le (now since : Tick) : elapsed now since ≤ 0x7FFFFFFF := by
  unfold elapsed
  split
  · decide
  · next h => exact UInt32.not_lt.mp h

@[simp] theorem latest_none (heard : Tick) : latest none heard = heard := rfl

theorem latest_some (earlier heard : Tick) :
    latest (some earlier) heard = if elapsed heard earlier = 0 then earlier else heard := rfl

end Tick

end PeerBeacon
