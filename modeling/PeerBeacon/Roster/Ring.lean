/-!
# Positions on a ring

The index of a roster is a ring of `size` positions that is searched by walking it once around.  A
walk starts at any number, which stands for its remainder modulo `size`, so that the id of a peer
serves as a starting point without further ado.

A walk from `start` meets position `i` after `Ring.stepsFrom start i` steps; the two functions are
inverse to each other (`Ring.stepsFrom_shift`, `Ring.shift_stepsFrom`).
-/

namespace PeerBeacon.Ring

variable {size : Nat}

/-- The position `k` steps after `start`. -/
def shift (start : Nat) (k : Fin size) : Fin size :=
  ⟨(start + k) % size, Nat.mod_lt _ k.pos⟩

/-- All positions, in the order of a walk that begins at `start`. -/
def walk (size start : Nat) : List (Fin size) :=
  (List.finRange size).map (shift start)

/-- The number of steps from `start` to position `i`. -/
def stepsFrom (start : Nat) (i : Fin size) : Nat :=
  (i + size - start % size) % size

theorem stepsFrom_lt (start : Nat) (i : Fin size) : stepsFrom start i < size :=
  Nat.mod_lt _ i.pos

@[simp] theorem length_walk (start : Nat) : (walk size start).length = size := by
  simp [walk]

theorem shift_stepsFrom (start : Nat) (i : Fin size) :
    shift start ⟨stepsFrom start i, stepsFrom_lt start i⟩ = i := by
  have hi := i.isLt
  have hs := Nat.mod_lt start i.pos
  have hd := Nat.div_add_mod start size
  apply Fin.ext
  simp only [shift, stepsFrom, Nat.add_mod_mod]
  have h : start + (i.val + size - start % size) = i.val + size * (start / size + 1) := by
    rw [Nat.mul_add, Nat.mul_one]
    omega
  rw [h, Nat.add_mul_mod_self_left, Nat.mod_eq_of_lt hi]

theorem stepsFrom_shift (start : Nat) (k : Fin size) : stepsFrom start (shift start k) = k := by
  have hk := k.isLt
  have hs := Nat.mod_lt start k.pos
  simp only [shift, stepsFrom]
  rw [Nat.add_mod, Nat.mod_eq_of_lt hk]
  by_cases h : start % size + k < size
  · rw [Nat.mod_eq_of_lt h]
    have : start % size + k + size - start % size = k + size := by omega
    rw [this, Nat.add_mod_right, Nat.mod_eq_of_lt hk]
  · have hm : (start % size + k) % size = start % size + k - size := by
      rw [Nat.mod_eq_sub_mod (by omega), Nat.mod_eq_of_lt (by omega)]
    rw [hm]
    have : start % size + k - size + size - start % size = k := by omega
    rw [this, Nat.mod_eq_of_lt hk]

/-- A walk meets every position. -/
theorem mem_walk (start : Nat) (i : Fin size) : i ∈ walk size start :=
  List.mem_map.mpr ⟨_, List.mem_finRange _, shift_stepsFrom start i⟩

end PeerBeacon.Ring
