import Mathlib.Data.Int.CardIntervalMod
import PeerBeacon.Proofs.Slot.Rendezvous

/-!
# The duty cycle of a schedule

A node pays for its radio in the active slots of a cycle, so their number is the price of a scheme.
It is counted by inclusion and exclusion: the slots that the one period divides and those that the
other one divides, less those that both divide, or a row and a column, less the slot where they
cross (`SlotScheme.activePerCycle_coprime`, `SlotScheme.activePerCycle_grid`).  The slots that both
periods divide are as many as their greatest common divisor, which Euclid's algorithm finds when a
scheme is checked.

No node need be at the start of a cycle when somebody begins to count.  The pattern of active slots
repeats with the cycle, so what enters a window of one cycle length at its end is what has left it
at its start, and every such window has the same number of active slots
(`SlotScheme.countP_isActive_add`).
-/

namespace PeerBeacon

/-! ## Counts below a bound -/

section Count

variable {p q : Nat → Prop} [DecidablePred p] [DecidablePred q]

/-- Inclusion and exclusion. -/
theorem count_or_add_count_and (n : Nat) :
    Nat.count (fun k => p k ∨ q k) n + Nat.count (fun k => p k ∧ q k) n =
      Nat.count p n + Nat.count q n := by
  simp only [Nat.count_eq_card_filter_range, Finset.filter_or, Finset.filter_and]
  exact Finset.card_union_add_card_inter _ _

/-- What holds of `len` numbers on end, and of no others, holds of `len` numbers. -/
theorem count_of_interval (start : Nat) {len n : Nat} (hfit : start + len ≤ n)
    (h : ∀ k, p k ↔ start ≤ k ∧ k < start + len) : Nat.count p n = len := by
  have hfilter : {k ∈ Finset.range n | p k} = Finset.Ico start (start + len) := by
    ext k
    rw [Finset.mem_filter, Finset.mem_range, Finset.mem_Ico, h]
    omega
  rw [Nat.count_eq_card_filter_range, hfilter, Nat.card_Ico, Nat.add_sub_cancel_left]

end Count

/-- Of `e` rounds of `d` numbers, every round has one with a given remainder. -/
theorem count_mod_eq {d c : Nat} (hc : c < d) (e : Nat) :
    Nat.count (fun k => k % d = c) (d * e) = e := by
  have hd : 0 < d := Nat.zero_lt_of_lt hc
  have hcount := Nat.count_modEq_card (d * e) hd c
  rw [Nat.mul_div_cancel_left e hd, Nat.mul_mod_right, if_neg (Nat.not_lt_zero _), Nat.add_zero]
    at hcount
  simp only [Nat.ModEq, Nat.mod_eq_of_lt hc] at hcount
  exact hcount

/-- A round has `d` numbers. -/
theorem count_div_eq {d r e : Nat} (hd : 0 < d) (hr : r < e) :
    Nat.count (fun k => k / d = r) (d * e) = d := by
  refine count_of_interval (d * r) ?_ fun k => ?_
  · rw [← Nat.mul_succ]
    exact Nat.mul_le_mul_left d hr
  · rw [Nat.div_eq_iff hd, Nat.mul_comm r d]
    omega

/-- Of the numbers of a round, one has a given remainder. -/
theorem count_div_eq_and_mod_eq {d r e c : Nat} (hc : c < d) (hr : r < e) :
    Nat.count (fun k => k / d = r ∧ k % d = c) (d * e) = 1 := by
  refine count_of_interval (d * r + c) ?_ fun k => ?_
  · calc d * r + c + 1 ≤ d * r + d := by omega
      _ = d * (r + 1) := (Nat.mul_succ d r).symm
      _ ≤ d * e := Nat.mul_le_mul_left d hr
  · rw [Nat.div_mod_unique (Nat.zero_lt_of_lt hc)]
    omega

/-! ## Active slots of one cycle -/

namespace SlotScheme

/-- Within a cycle a slot is its own position. -/
theorem activePerCycle_eq_count (s : SlotScheme) :
    s.activePerCycle = Nat.count (fun k => s.isActiveAt k = true) s.cycleLength := by
  rw [activePerCycle, Nat.count]
  refine List.countP_congr fun k hk => ?_
  rw [s.isActive_of_lt (List.mem_range.mp hk), decide_eq_true_iff]

section Coprime

variable {p₁ p₂ : UInt16}

/-- A coprime scheme with periods `p₁` and `p₂` is active in as many slots as the periods add up to,
less their greatest common divisor. -/
theorem activePerCycle_coprime (h₁ : p₁ ≠ 0) (h₂ : p₂ ≠ 0) :
    (coprime p₁ p₂).activePerCycle = p₁.toNat + p₂.toNat - Nat.gcd p₁.toNat p₂.toNat := by
  have hpos₁ := toNat_pos h₁
  have hpos₂ := toNat_pos h₂
  have hactive : ∀ k, (coprime p₁ p₂).isActiveAt k = true ↔
      k % p₁.toNat = 0 ∨ k % p₂.toNat = 0 := by simp [isActiveAt, h₁, h₂]
  have hboth : ∀ k, k % p₁.toNat = 0 ∧ k % p₂.toNat = 0 ↔
      k % Nat.lcm p₁.toNat p₂.toNat = 0 := by
    intro k
    simp only [← Nat.dvd_iff_mod_eq_zero, Nat.lcm_dvd_iff]
  have hsum := count_or_add_count_and (p := fun k => k % p₁.toNat = 0)
    (q := fun k => k % p₂.toNat = 0) (p₁.toNat * p₂.toNat)
  have hfirst := count_mod_eq hpos₁ p₂.toNat
  have hsecond := count_mod_eq hpos₂ p₁.toNat
  have hcommon := count_mod_eq (Nat.lcm_pos hpos₁ hpos₂) (Nat.gcd p₁.toNat p₂.toNat)
  rw [Nat.mul_comm] at hsecond
  rw [Nat.mul_comm, Nat.gcd_mul_lcm] at hcommon
  simp only [hboth, hfirst, hsecond, hcommon] at hsum
  rw [activePerCycle_eq_count, cycleLength_of_ne_zero h₁ h₂]
  simp only [hactive]
  omega

/-- The periods share no factor if and only if the active slots are as many as the periods add up
to, less the one slot that both divide. -/
theorem activePerCycle_coprime_eq_iff (h₁ : p₁ ≠ 0) (h₂ : p₂ ≠ 0) :
    (coprime p₁ p₂).activePerCycle = p₁.toNat + p₂.toNat - 1 ↔
      (coprime p₁ p₂).check = .ok () := by
  have hgcd := Nat.gcd_pos_of_pos_left p₂.toNat (toNat_pos h₁)
  have hle := Nat.gcd_le_left p₂.toNat (toNat_pos h₁)
  rw [activePerCycle_coprime h₁ h₂, check_coprime_eq_ok_iff]
  constructor
  · intro h
    exact ⟨h₁, h₂, by omega⟩
  · rintro ⟨-, -, h⟩
    rw [h]

end Coprime

/-- An accepted grid scheme is active in its row and its column, which cross once. -/
theorem activePerCycle_grid {dim row column : UInt16}
    (h : (grid dim row column).check = .ok ()) :
    (grid dim row column).activePerCycle = 2 * dim.toNat - 1 := by
  obtain ⟨hrow, hcolumn⟩ := (check_grid_eq_ok_iff dim row column).mp h
  rw [UInt16.lt_iff_toNat_lt] at hrow hcolumn
  have hdim : dim ≠ 0 := UInt16.pos_iff_ne_zero.mp
    (UInt16.lt_iff_toNat_lt.mpr (Nat.zero_lt_of_lt hrow))
  have hactive : ∀ k, (grid dim row column).isActiveAt k = true ↔
      k / dim.toNat = row.toNat ∨ k % dim.toNat = column.toNat := by simp [isActiveAt, hdim]
  have hsum := count_or_add_count_and (p := fun k => k / dim.toNat = row.toNat)
    (q := fun k => k % dim.toNat = column.toNat) (dim.toNat * dim.toNat)
  simp only [count_div_eq (Nat.zero_lt_of_lt hrow) hrow, count_mod_eq hcolumn,
    count_div_eq_and_mod_eq hcolumn hrow] at hsum
  rw [activePerCycle_eq_count, cycleLength_grid h]
  simp only [hactive]
  omega

/-! ## Active slots of a window -/

/-- Every window of one cycle length has as many active slots as the cycle itself. -/
theorem countP_isActive_add (s : SlotScheme) (x : Nat) :
    (List.range s.cycleLength).countP (fun k => s.isActive (x + k)) = s.activePerCycle := by
  have hwindow := Nat.count_add (fun k => s.isActive k = true) x s.cycleLength
  have hcycle := Nat.count_add (fun k => s.isActive k = true) s.cycleLength x
  have hperiod : ∀ k, s.isActive (s.cycleLength + k) = s.isActive k := by
    intro k
    rw [Nat.add_comm, isActive_add_cycleLength]
  simp only [hperiod] at hcycle
  rw [Nat.add_comm s.cycleLength x, hwindow, Nat.add_comm] at hcycle
  have hcount := Nat.add_right_cancel hcycle
  simp only [Nat.count, Bool.decide_eq_true] at hcount
  exact hcount

end SlotScheme

/-! ## Active slots of a scheduler -/

namespace Scheduler

/-- A call to a scheduler. -/
inductive Call where
  /-- A slot begins. -/
  | advance
  /-- An announcement is asked for. -/
  | stamp (now : Tick)
  /-- The radio was switched off outside the schedule. -/
  | releaseRadio

/-- What the slots that begin in the course of some calls ask of the radio, in order. -/
def actions (s : Scheduler) : List Call → List SlotAction
  | [] => []
  | .advance :: calls => s.advance.1 :: s.advance.2.actions calls
  | .stamp now :: calls => (s.stamp now).2.actions calls
  | .releaseRadio :: calls => s.releaseRadio.actions calls

/-- The slots that begin are those that follow in the scheme, whatever is called in between. -/
theorem map_isActive_actions (calls : List Call) :
    ∀ s : Scheduler, (s.actions calls).map SlotAction.isActive =
      (List.range (s.actions calls).length).map fun k => s.scheme.isActive (s.slot + k) := by
  induction calls with
  | nil => exact fun s => rfl
  | cons call calls ih =>
    intro s
    cases call with
    | advance =>
      have hfollow : ∀ k, s.advance.2.scheme.isActive (s.advance.2.slot + k) =
          s.scheme.isActive (s.slot + (k + 1)) := by
        intro k
        rw [advance, scheme_step, slot_step, nextSlot, ← s.scheme.isActive_mod, Nat.mod_add_mod,
          s.scheme.isActive_mod, Nat.add_right_comm, Nat.add_assoc]
      have hrest := ih s.advance.2
      simp only [hfollow] at hrest
      rw [actions, List.map_cons, List.length_cons, List.range_succ_eq_map, List.map_cons,
        List.map_map, hrest]
      exact congrArg₂ List.cons (isActive_action s) rfl
    | stamp now => exact ih (s.stamp now).2
    | releaseRadio => exact ih s.releaseRadio

/-- A scheduler that begins as many slots as a cycle has, from anywhere in its schedule, begins as
many active ones as a cycle has. -/
theorem countP_isActive_actions {s : Scheduler} {calls : List Call}
    (h : (s.actions calls).length = s.scheme.cycleLength) :
    (s.actions calls).countP SlotAction.isActive = s.scheme.activePerCycle := by
  have hcount := congrArg (List.countP id) (map_isActive_actions calls s)
  rw [List.countP_map, List.countP_map, h] at hcount
  exact hcount.trans (s.scheme.countP_isActive_add s.slot)

/-- **The duty cycle.**  A coprime scheme with non-zero periods is active in as many slots of a
cycle as the periods add up to, less their greatest common divisor.  This is what Euclid's algorithm
finds, so the active slots are one less than the periods add up to exactly if the scheme is
accepted.  An accepted grid scheme is active in one slot less than twice its dimension.  A scheduler
that begins as many slots as a cycle has, from anywhere in its schedule, begins just so many active
ones. -/
theorem duty_cycle :
    (∀ p₁ p₂ : UInt16, p₁ ≠ 0 → p₂ ≠ 0 →
      (SlotScheme.coprime p₁ p₂).activePerCycle =
          p₁.toNat + p₂.toNat - Nat.gcd p₁.toNat p₂.toNat ∧
        (SlotScheme.gcd p₁ p₂).toNat = Nat.gcd p₁.toNat p₂.toNat ∧
        ((SlotScheme.coprime p₁ p₂).activePerCycle = p₁.toNat + p₂.toNat - 1 ↔
          (SlotScheme.coprime p₁ p₂).check = .ok ())) ∧
    (∀ dim row column : UInt16, (SlotScheme.grid dim row column).check = .ok () →
      (SlotScheme.grid dim row column).activePerCycle = 2 * dim.toNat - 1) ∧
    (∀ (s : Scheduler) (calls : List Call), (s.actions calls).length = s.scheme.cycleLength →
      (s.actions calls).countP SlotAction.isActive = s.scheme.activePerCycle) := by
  refine ⟨fun p₁ p₂ h₁ h₂ => ⟨?_, ?_, ?_⟩, fun dim row column h => ?_, fun s calls h => ?_⟩
  · exact SlotScheme.activePerCycle_coprime h₁ h₂
  · exact SlotScheme.toNat_gcd p₁ p₂
  · exact SlotScheme.activePerCycle_coprime_eq_iff h₁ h₂
  · exact SlotScheme.activePerCycle_grid h
  · exact countP_isActive_actions h

/-- A window of six slots that straddles the end of a cycle, with announcements in between. -/
def straddle : List Call :=
  [.advance, .stamp 0, .advance, .advance, .releaseRadio, .advance, .stamp 9, .stamp 9, .advance,
    .advance]

/-- Periods that share a factor, an eight by eight grid, and a scheduler in the middle of its
cycle. -/
theorem duty_cycle_samples :
    (6 : UInt16) ≠ 0 ∧ (9 : UInt16) ≠ 0 ∧ (SlotScheme.coprime 6 9).activePerCycle = 6 + 9 - 3 ∧
      (SlotScheme.gcd 6 9).toNat = 3 ∧
      (SlotScheme.grid 8 3 5).check = .ok () ∧
      (SlotScheme.grid 8 3 5).activePerCycle = 2 * 8 - 1 ∧
      (((start 1 { scheme := .coprime 2 3 }).after 4).actions straddle).length = 6 ∧
      (((start 1 { scheme := .coprime 2 3 }).after 4).actions straddle).countP
        SlotAction.isActive = (SlotScheme.coprime 2 3).activePerCycle :=
  ⟨by decide, by decide, (duty_cycle.1 6 9 (by decide) (by decide)).1,
    (duty_cycle.1 6 9 (by decide) (by decide)).2.1, rfl, duty_cycle.2.1 8 3 5 rfl, rfl,
    duty_cycle.2.2 ((start 1 { scheme := .coprime 2 3 }).after 4) straddle rfl⟩

end Scheduler

end PeerBeacon
