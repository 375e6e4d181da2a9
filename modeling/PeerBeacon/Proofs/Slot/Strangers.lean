import PeerBeacon.Proofs.Slot.Rendezvous

/-!
# Coprime schedules with different periods

A coprime scheme is checked by itself: its own two periods share no factor.  Nothing relates them to
the periods of another node, and then two nodes need not meet.  A period of the one and a period of
the other come up together at some time if and only if their greatest common divisor divides the
distance of the two counts of slots (`exists_add_mod_eq_zero_iff`).  Two schemes have four such
pairs of periods, and they meet if and only if one of the four allows it
(`SlotScheme.exists_isActive_coprime_iff`).

Two schemes that share a factor in each of the four pairs may thus miss each other for good,
although either of them is accepted (`Scheduler.not_meet_of_shared_factors`). -/

namespace PeerBeacon

/-- Two counts are multiples of two periods at once, at some time, if and only if they agree modulo
what the periods have in common. -/
theorem exists_add_mod_eq_zero_iff {p q : Nat} (hp : 0 < p) (hq : 0 < q) (x y : Nat) :
    (∃ k, (x + k) % p = 0 ∧ (y + k) % q = 0) ↔ x ≡ y [MOD Nat.gcd p q] := by
  constructor
  · rintro ⟨k, hx, hy⟩
    replace hx : x + k ≡ 0 [MOD p] := hx
    replace hy : y + k ≡ 0 [MOD q] := hy
    have hxk := hx.of_dvd (Nat.gcd_dvd_left p q)
    have hyk := hy.of_dvd (Nat.gcd_dvd_right p q)
    exact Nat.ModEq.add_right_cancel' k (hxk.trans hyk.symm)
  · intro h
    -- After `i` slots the one count is a multiple of its period, after `j` slots the other; what
    -- the periods have in common divides both, so the remainder theorem applies to `i` and `j`.
    obtain ⟨i, -, hi⟩ := exists_add_mod_eq x hp
    obtain ⟨j, -, hj⟩ := exists_add_mod_eq y hq
    replace hi : x + i ≡ 0 [MOD p] := hi
    replace hj : y + j ≡ 0 [MOD q] := hj
    have hij : x + i ≡ x + j [MOD Nat.gcd p q] :=
      calc x + i ≡ 0 [MOD Nat.gcd p q] := hi.of_dvd (Nat.gcd_dvd_left p q)
        _ ≡ y + j [MOD Nat.gcd p q] := (hj.of_dvd (Nat.gcd_dvd_right p q)).symm
        _ ≡ x + j [MOD Nat.gcd p q] := h.symm.add_right j
    obtain ⟨k, hki, hkj⟩ := Nat.chineseRemainder' (Nat.ModEq.add_left_cancel' x hij)
    exact ⟨k, (hki.add_left x).trans hi, (hkj.add_left y).trans hj⟩

namespace SlotScheme

variable {p₁ p₂ q₁ q₂ : UInt16}

/-- One of the periods `p₁` and `p₂` and one of the periods `q₁` and `q₂` come up together at some
time, from slots `x` and `y` on. -/
def Allows (p₁ p₂ q₁ q₂ : UInt16) (x y : Nat) : Prop :=
  ∃ p ∈ [p₁, p₂], ∃ q ∈ [q₁, q₂], x ≡ y [MOD Nat.gcd p.toNat q.toNat]

instance (x y : Nat) : Decidable (Allows p₁ p₂ q₁ q₂ x y) := by
  unfold Allows
  infer_instance

theorem toNat_pos_of_check (h : (coprime p₁ p₂).check = .ok ()) :
    0 < p₁.toNat ∧ 0 < p₂.toNat := by
  obtain ⟨h₁, h₂, -⟩ := (check_coprime_eq_ok_iff p₁ p₂).mp h
  exact ⟨toNat_pos h₁, toNat_pos h₂⟩

/-- Accepted coprime schemes meet if and only if a period of the one and a period of the other
do. -/
theorem exists_isActive_coprime_iff (hp : (coprime p₁ p₂).check = .ok ())
    (hq : (coprime q₁ q₂).check = .ok ()) (x y : Nat) :
    (∃ k, (coprime p₁ p₂).isActive (x + k) = true ∧ (coprime q₁ q₂).isActive (y + k) = true) ↔
      Allows p₁ p₂ q₁ q₂ x y := by
  have hpos : ∀ p ∈ [p₁, p₂], 0 < p.toNat := by simpa using toNat_pos_of_check hp
  have hpos' : ∀ q ∈ [q₁, q₂], 0 < q.toNat := by simpa using toNat_pos_of_check hq
  have hactive : ∀ k, (coprime p₁ p₂).isActive (x + k) = true ↔
      ∃ p ∈ [p₁, p₂], (x + k) % p.toNat = 0 := by simp [isActive_coprime_iff hp]
  have hactive' : ∀ k, (coprime q₁ q₂).isActive (y + k) = true ↔
      ∃ q ∈ [q₁, q₂], (y + k) % q.toNat = 0 := by simp [isActive_coprime_iff hq]
  constructor
  · rintro ⟨k, hx, hy⟩
    obtain ⟨p, hp, hx⟩ := (hactive k).mp hx
    obtain ⟨q, hq, hy⟩ := (hactive' k).mp hy
    exact ⟨p, hp, q, hq, (exists_add_mod_eq_zero_iff (hpos p hp) (hpos' q hq) x y).mp ⟨k, hx, hy⟩⟩
  · rintro ⟨p, hp, q, hq, h⟩
    obtain ⟨k, hx, hy⟩ := (exists_add_mod_eq_zero_iff (hpos p hp) (hpos' q hq) x y).mpr h
    exact ⟨k, (hactive k).mpr ⟨p, hp, hx⟩, (hactive' k).mpr ⟨q, hq, hy⟩⟩

end SlotScheme

namespace Scheduler

/-- Two schedulers that begin their slots together both begin an active one at some time. -/
def Meet (a b : Scheduler) : Prop :=
  ∃ t, (a.after t).advance.1.isActive = true ∧ (b.after t).advance.1.isActive = true

theorem meet_iff (a b : Scheduler) :
    a.Meet b ↔
      ∃ t, a.scheme.isActive (a.slot + t) = true ∧ b.scheme.isActive (b.slot + t) = true := by
  have hactive : ∀ (s : Scheduler) t, (s.after t).advance.1.isActive =
      s.scheme.isActive (s.slot + t) := isActive_action_after
  simp only [Meet, hactive]

/-- Two accepted schemes whose periods share a factor in each of the four pairs: one slot apart,
they never meet. -/
theorem not_meet_of_shared_factors :
    (SlotScheme.coprime 6 35).check = .ok () ∧ (SlotScheme.coprime 10 21).check = .ok () ∧
      ¬(start 1 { scheme := .coprime 6 35 }).Meet
        ((start 2 { scheme := .coprime 10 21 }).after 1) := by
  refine ⟨rfl, rfl, ?_⟩
  intro hmeet
  have hallows : SlotScheme.Allows 6 35 10 21 0 1 :=
    (SlotScheme.exists_isActive_coprime_iff rfl rfl 0 1).mp ((meet_iff _ _).mp hmeet)
  exact absurd hallows (by decide)

/-- **When coprime schedules meet.**  Two schedulers with accepted coprime schemes, anywhere in
their schedules, meet if and only if their counts of slots agree modulo the greatest common divisor
of a period of the one and a period of the other. -/
theorem meet_coprime_iff (a b : Scheduler) {p₁ p₂ q₁ q₂ : UInt16}
    (ha : a.scheme = .coprime p₁ p₂) (hb : b.scheme = .coprime q₁ q₂)
    (hp : (SlotScheme.coprime p₁ p₂).check = .ok ())
    (hq : (SlotScheme.coprime q₁ q₂).check = .ok ()) :
    a.Meet b ↔ SlotScheme.Allows p₁ p₂ q₁ q₂ a.slot b.slot := by
  rw [meet_iff, ha, hb]
  exact SlotScheme.exists_isActive_coprime_iff hp hq a.slot b.slot

/-- The same two schemes meet when they start together. -/
theorem meet_coprime_iff_shared_start :
    (SlotScheme.coprime 6 35).check = .ok () ∧ (SlotScheme.coprime 10 21).check = .ok () ∧
      (start 1 { scheme := .coprime 6 35 }).Meet (start 2 { scheme := .coprime 10 21 }) :=
  ⟨rfl, rfl, (meet_coprime_iff (start 1 { scheme := .coprime 6 35 })
    (start 2 { scheme := .coprime 10 21 }) rfl rfl rfl rfl).mpr (by decide)⟩

end Scheduler

end PeerBeacon
