import Mathlib.Tactic.SplitIfs
import PeerBeacon.Roster.Basic

/-!
# The order of a walk

A search of the index walks once around a ring and compares positions only by the order in which the
walk meets them.  `Ring.Before start j i` says that the walk from `start` meets `j` strictly before
`i`.

Arguments about several walks at once need one system of coordinates: all positions, the starts of
the other walks included, are counted from one base.  In these coordinates `Ring.Before` is cyclic
order (`Ring.before_iff`), and what has to be shown about walks is linear arithmetic.
-/

namespace PeerBeacon

namespace Ring

variable {size : Nat}

/-- The walk from `start` meets `j` before it meets `i`. -/
def Before (start : Nat) (j i : Fin size) : Prop :=
  stepsFrom start j < stepsFrom start i

instance (start : Nat) (j i : Fin size) : Decidable (Before start j i) :=
  inferInstanceAs (Decidable (_ < _))

/-- The number of steps from `base` to the position at which the walk from `start` begins. -/
def offset (size base start : Nat) : Nat :=
  (start % size + size - base % size) % size

/-- The number of steps without a remainder: straight ahead, or once past the end of the ring. -/
theorem stepsFrom_eq (start : Nat) (i : Fin size) :
    stepsFrom start i =
      if start % size ≤ i then i - start % size else i + size - start % size := by
  have hi := i.isLt
  have hs := Nat.mod_lt start i.pos
  unfold stepsFrom
  split
  · next h =>
    have hsplit : i.val + size - start % size = i.val - start % size + size := by omega
    rw [hsplit, Nat.add_mod_right, Nat.mod_eq_of_lt (by omega)]
  · next h =>
    exact Nat.mod_eq_of_lt (by omega)

@[simp] theorem stepsFrom_self (i : Fin size) : stepsFrom i i = 0 := by
  rw [stepsFrom_eq, Nat.mod_eq_of_lt i.isLt, if_pos (Nat.le_refl _), Nat.sub_self]

/-- Two positions that a walk meets after the same number of steps are the same. -/
theorem stepsFrom_inj {start : Nat} {i j : Fin size} :
    stepsFrom start i = stepsFrom start j ↔ i = j := by
  constructor
  · intro h
    rw [← shift_stepsFrom start i, ← shift_stepsFrom start j]
    simp only [h]
  · rintro rfl
    rfl

/-- A walk that begins at a position of the ring has that position as its offset. -/
theorem offset_val (base : Nat) (i : Fin size) : offset size base i = stepsFrom base i := by
  rw [offset, stepsFrom, Nat.mod_eq_of_lt i.isLt]

/-- An offset without a remainder, like `stepsFrom_eq`. -/
theorem offset_eq (base start : Nat) (h : 0 < size) :
    offset size base start =
      if base % size ≤ start % size then start % size - base % size
      else start % size + size - base % size := by
  have hs := stepsFrom_eq base ⟨start % size, Nat.mod_lt _ h⟩
  rwa [← offset_val, offset, Nat.mod_mod] at hs

/-- Steps from `start` in coordinates that are counted from `base`. -/
theorem stepsFrom_rebase (base start : Nat) (i : Fin size) :
    stepsFrom start i =
      if offset size base start ≤ stepsFrom base i then
        stepsFrom base i - offset size base start
      else
        stepsFrom base i + size - offset size base start := by
  have hi := i.isLt
  have hs := Nat.mod_lt start i.pos
  have hb := Nat.mod_lt base i.pos
  simp only [stepsFrom_eq, offset_eq base start i.pos]
  split_ifs <;> omega

/-- In coordinates that are counted from `base`, the walk from `start` meets `j` before `i` if and
only if its beginning, `j` and `i` follow each other in cyclic order. -/
theorem before_iff (base start : Nat) (j i : Fin size) :
    Before start j i ↔
      (offset size base start ≤ stepsFrom base j ∧ stepsFrom base j < stepsFrom base i) ∨
      (stepsFrom base i < offset size base start ∧ offset size base start ≤ stepsFrom base j) ∨
      (stepsFrom base j < stepsFrom base i ∧ stepsFrom base i < offset size base start) := by
  have hi := stepsFrom_lt base i
  have hj := stepsFrom_lt base j
  have hh : offset size base start < size := Nat.mod_lt _ i.pos
  unfold Before
  rw [stepsFrom_rebase base start i, stepsFrom_rebase base start j]
  split_ifs <;> omega

/-- Position `i` is fewer steps away from `start` than from `gap` if and only if the walk from
`start` meets it before it meets `gap`. -/
theorem stepsFrom_lt_stepsFrom_iff (start : Nat) (gap i : Fin size) :
    stepsFrom start i < stepsFrom gap i ↔ Before start i gap := by
  have hi := stepsFrom_lt start i
  have hg := stepsFrom_lt start gap
  unfold Before
  rw [stepsFrom_rebase start gap.val i, offset_val]
  split_ifs <;> omega

theorem not_before_self (start : Nat) (i : Fin size) : ¬Before start i i :=
  Nat.lt_irrefl _

theorem Before.trans {start : Nat} {i j k : Fin size} (hij : Before start i j)
    (hjk : Before start j k) : Before start i k :=
  Nat.lt_trans hij hjk

/-- Of two positions, a walk that does not meet the first before the second meets the second before
the first. -/
theorem before_of_not_before {start : Nat} {i j : Fin size} (hne : i ≠ j)
    (h : ¬Before start i j) : Before start j i := by
  have hsteps : stepsFrom start i ≠ stepsFrom start j := by rwa [Ne, stepsFrom_inj]
  unfold Before at h ⊢
  omega

/-! ## The list of a walk -/

@[simp] theorem getElem_walk (start k : Nat) (h : k < (walk size start).length) :
    (walk size start)[k] = shift start ⟨k, by simpa using h⟩ := by
  simp [walk]

/-- What is left of a walk after `n` steps. -/
theorem drop_walk {start n : Nat} (h : n < size) :
    (walk size start).drop n = shift start ⟨n, h⟩ :: (walk size start).drop (n + 1) := by
  rw [List.drop_eq_getElem_cons (by simpa using h), getElem_walk]

end Ring

end PeerBeacon
