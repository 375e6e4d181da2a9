import Mathlib.Data.Nat.ModEq
import Mathlib.Logic.Function.Iterate
import PeerBeacon.Settings.Fault
import PeerBeacon.Slot.Scheduler

/-!
# Two schedules meet

Two nodes begin their slots at the same moments but have no common count of them.  They can talk to
each other in the slots that are active for both, and a scheme is of use only if there is such a
slot in every cycle, wherever in their cycles the two nodes are.

For coprime schemes with the same periods this is the Chinese remainder theorem.  For grid schemes
the row of one of them does it: a row is a run of as many active slots as the grid is wide, and such
a run passes every column of a grid that is not wider.
-/

namespace PeerBeacon

/-! ## Remainders -/

/-- A run of `d` numbers passes every remainder modulo `d`. -/
theorem exists_add_mod_eq (x : Nat) {d c : Nat} (hc : c < d) : ∃ k < d, (x + k) % d = c := by
  have hd : 0 < d := Nat.zero_lt_of_lt hc
  have hx : x % d < d := Nat.mod_lt x hd
  refine ⟨(d - x % d + c) % d, Nat.mod_lt _ hd, ?_⟩
  have hround : x % d + (d - x % d + c) = d + c := by omega
  rw [Nat.add_mod_mod, ← Nat.mod_add_mod, hround, Nat.add_mod_left, Nat.mod_eq_of_lt hc]

/-- Two counts are multiples of coprime periods at once, before the product of the periods has
passed. -/
theorem exists_add_mod_eq_zero {p q : Nat} (hp : 0 < p) (hq : 0 < q) (h : Nat.Coprime p q)
    (x y : Nat) : ∃ k < p * q, (x + k) % p = 0 ∧ (y + k) % q = 0 := by
  obtain ⟨i, -, hi⟩ := exists_add_mod_eq x hp
  obtain ⟨j, -, hj⟩ := exists_add_mod_eq y hq
  obtain ⟨hki, hkj⟩ := (Nat.chineseRemainder h i j).prop
  refine ⟨Nat.chineseRemainder h i j, Nat.chineseRemainder_lt_mul h i j hp.ne' hq.ne', ?_, ?_⟩
  · rw [← hi]
    exact hki.add_left x
  · rw [← hj]
    exact hkj.add_left y

namespace SlotScheme

/-! ## Active slots of accepted schemes -/

section Coprime

variable {p₁ p₂ : UInt16}

/-- The cycle of a coprime scheme is the product of its periods, unless one is zero. -/
theorem cycleLength_of_ne_zero (h₁ : p₁ ≠ 0) (h₂ : p₂ ≠ 0) :
    (coprime p₁ p₂).cycleLength = p₁.toNat * p₂.toNat :=
  Nat.max_eq_right (Nat.mul_pos (toNat_pos h₁) (toNat_pos h₂))

/-- The cycle of an accepted coprime scheme is the product of its periods. -/
theorem cycleLength_coprime (h : (coprime p₁ p₂).check = .ok ()) :
    (coprime p₁ p₂).cycleLength = p₁.toNat * p₂.toNat := by
  obtain ⟨h₁, h₂, -⟩ := (check_coprime_eq_ok_iff p₁ p₂).mp h
  exact cycleLength_of_ne_zero h₁ h₂

/-- An accepted coprime scheme is active in the slots that one of its periods divides. -/
theorem isActive_coprime_iff (h : (coprime p₁ p₂).check = .ok ()) (slot : Nat) :
    (coprime p₁ p₂).isActive slot = true ↔ slot % p₁.toNat = 0 ∨ slot % p₂.toNat = 0 := by
  obtain ⟨h₁, h₂, -⟩ := (check_coprime_eq_ok_iff p₁ p₂).mp h
  rw [isActive, cycleLength_coprime h, isActiveAt, Nat.mod_mul_right_mod, Nat.mod_mul_left_mod]
  simp [h₁, h₂]

end Coprime

section Grid

variable {dim row column : UInt16}

/-- The cycle of an accepted grid scheme is the square of its dimension. -/
theorem cycleLength_grid (h : (grid dim row column).check = .ok ()) :
    (grid dim row column).cycleLength = dim.toNat * dim.toNat := by
  have hlt := ((check_grid_eq_ok_iff dim row column).mp h).1
  have hdim : 0 < dim.toNat := Nat.zero_lt_of_lt (UInt16.lt_iff_toNat_lt.mp hlt)
  have hpos := Nat.mul_pos hdim hdim
  rw [cycleLength]
  omega

/-- An accepted grid scheme is active in one row and in one column. -/
theorem isActive_grid_iff (h : (grid dim row column).check = .ok ()) (slot : Nat) :
    (grid dim row column).isActive slot = true ↔
      slot % (dim.toNat * dim.toNat) / dim.toNat = row.toNat ∨
        slot % dim.toNat = column.toNat := by
  have hlt := ((check_grid_eq_ok_iff dim row column).mp h).1
  have hdim : dim ≠ 0 := UInt16.pos_iff_ne_zero.mp (UInt16.lt_of_le_of_lt (UInt16.zero_le) hlt)
  rw [isActive, cycleLength_grid h, isActiveAt, Nat.mod_mul_right_mod]
  simp [hdim]

/-- The row ends within the cycle. -/
theorem row_add_lt (h : (grid dim row column).check = .ok ()) {k : Nat} (hk : k < dim.toNat) :
    row.toNat * dim.toNat + k < dim.toNat * dim.toNat := by
  have hrow := UInt16.lt_iff_toNat_lt.mp ((check_grid_eq_ok_iff dim row column).mp h).1
  calc row.toNat * dim.toNat + k < row.toNat * dim.toNat + dim.toNat := by omega
    _ = (row.toNat + 1) * dim.toNat := by rw [Nat.add_mul, Nat.one_mul]
    _ ≤ dim.toNat * dim.toNat := Nat.mul_le_mul_right _ hrow

/-- From the start of a cycle, the row begins after as many slots as come before it, and goes on for
as many slots as the grid is wide. -/
theorem isActive_grid_row (h : (grid dim row column).check = .ok ()) {start k : Nat}
    (hstart : start % (dim.toNat * dim.toNat) = 0) (hk : k < dim.toNat) :
    (grid dim row column).isActive (start + (row.toNat * dim.toNat + k)) = true := by
  refine (isActive_grid_iff h _).mpr (.inl ?_)
  rw [← Nat.mod_add_mod, hstart, Nat.zero_add, Nat.mod_eq_of_lt (row_add_lt h hk),
    Nat.add_div_of_dvd_right (Nat.dvd_mul_left _ _), Nat.mul_div_cancel _ (Nat.zero_lt_of_lt hk),
    Nat.div_eq_of_lt hk, Nat.add_zero]

end Grid

/-! ## Meetings of schemes -/

/-- Coprime schemes with the same periods meet within every cycle length, wherever they are. -/
theorem exists_isActive_coprime {p₁ p₂ : UInt16} (h : (coprime p₁ p₂).check = .ok ())
    (x y : Nat) :
    ∃ k < p₁.toNat * p₂.toNat, (coprime p₁ p₂).isActive (x + k) = true ∧
      (coprime p₁ p₂).isActive (y + k) = true := by
  obtain ⟨h₁, h₂, hcoprime⟩ := (check_coprime_eq_ok_iff p₁ p₂).mp h
  obtain ⟨k, hk, hx, hy⟩ := exists_add_mod_eq_zero (toNat_pos h₁) (toNat_pos h₂) hcoprime x y
  exact ⟨k, hk, (isActive_coprime_iff h _).mpr (.inl hx), (isActive_coprime_iff h _).mpr (.inr hy)⟩

/-- From the start of a cycle of a grid scheme, it meets every grid scheme that is not wider before
the cycle ends. -/
theorem exists_isActive_grid {dim row column dim' row' column' : UInt16}
    (h : (grid dim row column).check = .ok ()) (h' : (grid dim' row' column').check = .ok ())
    (hle : dim' ≤ dim) {x : Nat} (hx : x % (dim.toNat * dim.toNat) = 0) (y : Nat) :
    ∃ k < dim.toNat * dim.toNat, (grid dim row column).isActive (x + k) = true ∧
      (grid dim' row' column').isActive (y + k) = true := by
  have hcolumn := UInt16.lt_iff_toNat_lt.mp ((check_grid_eq_ok_iff dim' row' column').mp h').2
  obtain ⟨k, hk, hmod⟩ := exists_add_mod_eq (y + row.toNat * dim.toNat) hcolumn
  have hkdim : k < dim.toNat := Nat.lt_of_lt_of_le hk (UInt16.le_iff_toNat_le.mp hle)
  refine ⟨row.toNat * dim.toNat + k, row_add_lt h hkdim, isActive_grid_row h hx hkdim, ?_⟩
  refine (isActive_grid_iff h' _).mpr (.inr ?_)
  rw [← Nat.add_assoc]
  exact hmod

/-! ## Meetings in every window -/

/-- Two schemes that are made to meet each other without a common count of slots. -/
inductive Matching : SlotScheme → SlotScheme → Prop where
  /-- Coprime schemes with the same periods. -/
  | coprime (p₁ p₂ : UInt16) : Matching (coprime p₁ p₂) (coprime p₁ p₂)
  /-- Grid schemes of the same dimension. -/
  | grid (dim row column row' column' : UInt16) :
      Matching (grid dim row column) (grid dim row' column')

theorem Matching.cycleLength_eq {s s' : SlotScheme} (h : Matching s s') :
    s.cycleLength = s'.cycleLength := by
  cases h <;> rfl

/-- A count of further slots matters only modulo the length of the cycle. -/
theorem isActive_add_mod (s : SlotScheme) (x n : Nat) :
    s.isActive (x + n % s.cycleLength) = s.isActive (x + n) := by
  rw [isActive, isActive, Nat.add_mod_mod]

/-- Matching schemes meet within every cycle length, wherever they are. -/
theorem Matching.exists_isActive {s s' : SlotScheme} (h : Matching s s')
    (hs : s.check = .ok ()) (hs' : s'.check = .ok ()) (x y : Nat) :
    ∃ k < s.cycleLength, s.isActive (x + k) = true ∧ s'.isActive (y + k) = true := by
  have hlen := h.cycleLength_eq
  cases h with
  | coprime p₁ p₂ =>
    rw [cycleLength_coprime hs]
    exact exists_isActive_coprime hs x y
  | grid dim row column row' column' =>
    -- The schemes meet after the next start of a cycle, and a whole cycle more or less does not
    -- matter to either.
    have hpos := SlotScheme.cycleLength_pos (.grid dim row column)
    obtain ⟨i, -, hstart⟩ := exists_add_mod_eq x hpos
    rw [cycleLength_grid hs] at hstart
    obtain ⟨k, -, hactive, hactive'⟩ :=
      exists_isActive_grid hs hs' (UInt16.le_refl dim) hstart (y + i)
    rw [Nat.add_assoc] at hactive hactive'
    refine ⟨_, Nat.mod_lt (i + k) hpos, ?_, ?_⟩
    · rwa [isActive_add_mod]
    · rwa [hlen, isActive_add_mod]

end SlotScheme

/-! ## Schedulers in lockstep -/

namespace Scheduler

variable (s : Scheduler)

/-- The scheduler after a number of slots. -/
def after (n : Nat) : Scheduler :=
  step^[n] s

theorem after_succ (n : Nat) : s.after (n + 1) = (s.after n).step :=
  Function.iterate_succ_apply' step n s

@[simp] theorem scheme_after (n : Nat) : (s.after n).scheme = s.scheme := by
  induction n with
  | zero => rfl
  | succ n ih => rw [after_succ, scheme_step, ih]

@[simp] theorem nodeId_after (n : Nat) : (s.after n).nodeId = s.nodeId := by
  induction n with
  | zero => rfl
  | succ n ih => rw [after_succ, step, ih]

@[simp] theorem burst_after (n : Nat) : (s.after n).burst = s.burst := by
  induction n with
  | zero => rfl
  | succ n ih => rw [after_succ, step, ih]

/-- A scheduler counts slots modulo the length of the cycle. -/
theorem slot_after_mod (n : Nat) :
    (s.after n).slot % s.scheme.cycleLength = (s.slot + n) % s.scheme.cycleLength := by
  induction n with
  | zero => rfl
  | succ n ih =>
    rw [after_succ, slot_step, nextSlot, scheme_after, Nat.mod_mod, ← Nat.mod_add_mod, ih,
      Nat.mod_add_mod, Nat.add_assoc]

/-- The slot that begins after `n` others is active if the scheme says so. -/
theorem isActive_action_after (n : Nat) :
    (s.after n).action.isActive = s.scheme.isActive (s.slot + n) := by
  rw [isActive_action, scheme_after, ← s.scheme.isActive_mod, slot_after_mod, s.scheme.isActive_mod]

/-- Two schedulers that begin their slots together both begin an active one, after `w` slots or more
and before `w + len` slots. -/
def MeetWithin (a b : Scheduler) (w len : Nat) : Prop :=
  ∃ t, w ≤ t ∧ t < w + len ∧
    (a.after t).advance.1.isActive = true ∧ (b.after t).advance.1.isActive = true

theorem meetWithin_of_exists {a b : Scheduler} {w len : Nat}
    (h : ∃ k < len, a.scheme.isActive (a.slot + w + k) = true ∧
      b.scheme.isActive (b.slot + w + k) = true) : a.MeetWithin b w len := by
  obtain ⟨k, hk, ha, hb⟩ := h
  refine ⟨w + k, Nat.le_add_right w k, Nat.add_lt_add_left hk w, ?_, ?_⟩
  · exact (isActive_action_after a (w + k)).trans (by rwa [← Nat.add_assoc])
  · exact (isActive_action_after b (w + k)).trans (by rwa [← Nat.add_assoc])

/-- **Rendezvous without a common count of slots.**  Two schedulers are anywhere in their schedules,
and begin their slots together.  With the same accepted coprime scheme they meet within every window
of as many slots as the product of the periods.  With accepted grid schemes, of any dimensions and
coordinates, they meet within every cycle of the one whose grid is not the narrower, counted from
the slot where that cycle starts. -/
theorem rendezvous (a b : Scheduler) :
    (∀ p₁ p₂ : UInt16, a.scheme = .coprime p₁ p₂ → b.scheme = .coprime p₁ p₂ →
      (SlotScheme.coprime p₁ p₂).check = .ok () →
        ∀ w, a.MeetWithin b w (p₁.toNat * p₂.toNat)) ∧
    (∀ dim row column dim' row' column' : UInt16,
      a.scheme = .grid dim row column → (SlotScheme.grid dim row column).check = .ok () →
      b.scheme = .grid dim' row' column' → (SlotScheme.grid dim' row' column').check = .ok () →
      dim' ≤ dim → ∀ w, (a.after w).slot = 0 → a.MeetWithin b w (dim.toNat * dim.toNat)) := by
  constructor
  · intro p₁ p₂ ha hb hcheck w
    refine meetWithin_of_exists ?_
    rw [ha, hb]
    exact SlotScheme.exists_isActive_coprime hcheck (a.slot + w) (b.slot + w)
  · intro dim row column dim' row' column' ha hcheck hb hcheck' hle w hw
    have hstart := a.slot_after_mod w
    rw [hw, Nat.zero_mod, ha, SlotScheme.cycleLength_grid hcheck] at hstart
    refine meetWithin_of_exists ?_
    rw [ha, hb]
    exact SlotScheme.exists_isActive_grid hcheck hcheck' hle hstart.symm (b.slot + w)

/-- Two default schedules meet although one runs ninety-five slots ahead, and so do an eight by
eight and a five by five grid. -/
theorem rendezvous_default_and_grids :
    ((start 1 {}).after 5).MeetWithin ((start 2 {}).after 100) 7 143 ∧
      (start 1 { scheme := .grid 8 2 5 }).MeetWithin
        ((start 2 { scheme := .grid 5 4 0 }).after 3) 0 64 :=
  ⟨(rendezvous ((start 1 {}).after 5) ((start 2 {}).after 100)).1 11 13 rfl rfl rfl 7,
    (rendezvous (start 1 { scheme := .grid 8 2 5 })
      ((start 2 { scheme := .grid 5 4 0 }).after 3)).2 8 2 5 5 4 0 rfl (by decide) rfl (by decide)
        (by decide) 0 rfl⟩

end Scheduler

end PeerBeacon
