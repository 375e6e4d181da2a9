import PeerBeacon.Settings.Basic

/-!
# Faults in settings

Settings are checked before a node starts.  A check names the first fault it meets: the schedule is
looked at before the thresholds, and within each the fields in the order in which they are declared.

Whether the periods of a coprime scheme share a factor is found by Euclid's algorithm on words of 16
bits (`SlotScheme.gcd`); it is the greatest common divisor of the numbers (`SlotScheme.toNat_gcd`).
-/

namespace PeerBeacon

/-- Why settings are refused. -/
inductive SettingsFault where
  /-- Slots of no length. -/
  | zeroSlot
  /-- A burst of no announcement, or of too many. -/
  | burst (size : UInt8)
  /-- A coprime scheme with a period of zero. -/
  | zeroPeriod
  /-- A coprime scheme whose periods share a factor. -/
  | notCoprime (p₁ p₂ : UInt16)
  /-- A grid scheme of dimension zero. -/
  | zeroDim
  /-- A grid scheme with a coordinate outside the grid. -/
  | coordinate (dim row column : UInt16)
  /-- A short timeout of zero. -/
  | zeroTimeout
  /-- A leave grace that ends after the absence threshold. -/
  | leaveAfterAbsent (leaveGrace absentAfter : UInt32)
  deriving DecidableEq, Repr

/-- The wording of a fault. -/
def SettingsFault.message : SettingsFault → String
  | zeroSlot => "slot duration must be non-zero"
  | burst size =>
    "burst size " ++ toString size ++ " outside 1..=" ++ toString Schedule.maxBurst
  | zeroPeriod => "slot periods must be non-zero"
  | notCoprime p₁ p₂ =>
    "slot periods " ++ toString p₁ ++ " and " ++ toString p₂ ++ " are not coprime"
  | zeroDim => "grid dimension must be non-zero"
  | coordinate dim row column =>
    "grid coordinate (" ++ toString row ++ ", " ++ toString column ++ ") outside " ++
      toString dim ++ "x" ++ toString dim
  | zeroTimeout => "short timeout must be non-zero"
  | leaveAfterAbsent leaveGrace absentAfter =>
    "leave grace " ++ toString leaveGrace ++ "s exceeds absence threshold " ++
      toString absentAfter ++ "s"

-- Semireducible, although the recursion is not structural: checks of given settings are computed.
/-- The greatest common divisor of two periods, by Euclid's algorithm. -/
@[semireducible]
def SlotScheme.gcd (a b : UInt16) : UInt16 :=
  if b = 0 then a else gcd b (a % b)
termination_by b.toNat
decreasing_by
  next h => exact UInt16.lt_iff_toNat_lt.mp (UInt16.mod_lt a (UInt16.pos_iff_ne_zero.mpr h))

/-- Checks a scheme: non-zero periods without a common factor, or a non-empty grid that holds its
coordinates. -/
def SlotScheme.check : SlotScheme → Except SettingsFault Unit
  | coprime p₁ p₂ =>
    if p₁ = 0 ∨ p₂ = 0 then .error .zeroPeriod
    else if gcd p₁ p₂ ≠ 1 then .error (.notCoprime p₁ p₂)
    else .ok ()
  | grid dim row column =>
    if dim = 0 then .error .zeroDim
    else if dim ≤ row ∨ dim ≤ column then .error (.coordinate dim row column)
    else .ok ()

/-- Checks a schedule. -/
def Schedule.check (s : Schedule) : Except SettingsFault Unit :=
  if s.slotMicros = 0 then .error .zeroSlot
  else if s.burst = 0 ∨ maxBurst < s.burst then .error (.burst s.burst)
  else s.scheme.check

/-- Checks the thresholds. -/
def Thresholds.check (t : Thresholds) : Except SettingsFault Unit :=
  if t.shortTimeout = 0 then .error .zeroTimeout
  else if t.absentAfter < t.leaveGrace then .error (.leaveAfterAbsent t.leaveGrace t.absentAfter)
  else .ok ()

/-- Checks all settings, the schedule first. -/
def Settings.check (s : Settings) : Except SettingsFault Unit := do
  s.schedule.check
  s.thresholds.check

/-! ## What is accepted -/

/-- Each turn of Euclid's algorithm keeps the greatest common divisor, so the last one has it. -/
theorem SlotScheme.toNat_gcd (a b : UInt16) : (gcd a b).toNat = Nat.gcd a.toNat b.toNat := by
  fun_induction gcd a b with
  | case1 a => exact (Nat.gcd_zero_right a.toNat).symm
  | case2 a b _ ih =>
    calc (gcd b (a % b)).toNat = Nat.gcd b.toNat (a.toNat % b.toNat) := by
          rw [ih, UInt16.toNat_mod]
      _ = Nat.gcd (a.toNat % b.toNat) b.toNat := Nat.gcd_comm _ _
      _ = Nat.gcd b.toNat a.toNat := (Nat.gcd_rec b.toNat a.toNat).symm
      _ = Nat.gcd a.toNat b.toNat := Nat.gcd_comm _ _

theorem SlotScheme.gcd_eq_one_iff (a b : UInt16) :
    gcd a b = 1 ↔ Nat.gcd a.toNat b.toNat = 1 := by
  rw [← toNat_gcd, ← UInt16.toNat_inj]
  rfl

/-- A coprime scheme is accepted if and only if its periods are non-zero and share no factor. -/
theorem SlotScheme.check_coprime_eq_ok_iff (p₁ p₂ : UInt16) :
    (coprime p₁ p₂).check = .ok () ↔ p₁ ≠ 0 ∧ p₂ ≠ 0 ∧ Nat.gcd p₁.toNat p₂.toNat = 1 := by
  rw [← gcd_eq_one_iff]
  by_cases h₁ : p₁ = 0
  · simp [check, h₁]
  · by_cases h₂ : p₂ = 0
    · simp [check, h₂]
    · by_cases h : gcd p₁ p₂ = 1 <;> simp [check, h₁, h₂, h]

/-- A grid scheme is accepted if and only if its grid holds its coordinates. -/
theorem SlotScheme.check_grid_eq_ok_iff (dim row column : UInt16) :
    (grid dim row column).check = .ok () ↔ row < dim ∧ column < dim := by
  by_cases h₀ : dim = 0
  · simp [check, h₀]
  · by_cases h : dim ≤ row ∨ dim ≤ column
    · have h' : ¬(row < dim ∧ column < dim) := fun ⟨hr, hc⟩ =>
        h.elim (UInt16.not_le.mpr hr) (UInt16.not_le.mpr hc)
      simp [check, h₀, h, h']
    · have h' := not_or.mp h
      simp [check, h₀, h, UInt16.not_le.mp h'.1, UInt16.not_le.mp h'.2]

/-- A schedule is accepted if and only if its slots take time, its burst is neither empty nor too
large, and its scheme is accepted. -/
theorem Schedule.check_eq_ok_iff (s : Schedule) :
    s.check = .ok () ↔
      s.slotMicros ≠ 0 ∧ s.burst ≠ 0 ∧ s.burst ≤ maxBurst ∧ s.scheme.check = .ok () := by
  unfold check
  split
  · simp_all
  · split
    · next h =>
      rcases h with h | h
      · simp_all
      · simp [UInt8.not_le.mpr h]
    · next h =>
      rw [not_or, UInt8.not_lt] at h
      simp_all

/-- The thresholds are accepted if and only if the short timeout is not zero and the leave grace
ends no later than the absence threshold. -/
theorem Thresholds.check_eq_ok_iff (t : Thresholds) :
    t.check = .ok () ↔ t.shortTimeout ≠ 0 ∧ t.leaveGrace ≤ t.absentAfter := by
  unfold check
  split
  · simp_all
  · split <;> simp_all

theorem Settings.check_eq_ok_iff (s : Settings) :
    s.check = .ok () ↔ s.schedule.check = .ok () ∧ s.thresholds.check = .ok () := by
  unfold Settings.check
  cases s.schedule.check <;> simp [bind, Except.bind]

/-- The default settings are accepted. -/
theorem Settings.check_default : Settings.check {} = .ok () := rfl

end PeerBeacon
