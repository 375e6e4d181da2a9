import Mathlib.Data.FinEnum
import Mathlib.Data.Int.CardIntervalMod
import Mathlib.Data.Set.Function
import PeerBeacon.Settings.Fault

/-!
# Grids from seeds

A node draws the coordinates of its grid from a seed, and a random seed is of use only if no
coordinates are much more likely than others.  The row is the lowest digit of the seed to the base
of the dimension and the column is the next one, so the two together are the seed modulo the number
of coordinates (`SlotScheme.ofSeed_eq_grid_iff`).

The seeds below that number thus go through all coordinates once (`SlotScheme.ofSeed_bijOn`), and
all further seeds repeat them.  The number of coordinates need not divide the number of seeds, and
then the last round stops short: some coordinates have one seed more than the others
(`SlotScheme.seedCount_eq`).
-/

namespace PeerBeacon

namespace SlotScheme

variable {dim row column : UInt16} {seed : UInt32}

theorem ofNat_eq_iff {n : Nat} (hn : n < dim.toNat) : UInt16.ofNat n = row ↔ n = row.toNat := by
  have hword : (UInt16.ofNat n).toNat = n :=
    UInt16.toNat_ofNat_of_lt' (Nat.lt_trans hn dim.toNat_lt)
  rw [← UInt16.toNat_inj, hword]

/-- Two digits to the base `d` are the remainder modulo the square of `d`. -/
theorem mod_eq_and_div_mod_eq_iff {x d r c : Nat} (hr : r < d) :
    x % d = r ∧ x / d % d = c ↔ x % (d * d) = r + d * c := by
  rw [Nat.mod_mul]
  constructor
  · rintro ⟨rfl, rfl⟩
    rfl
  · intro h
    have hd : 0 < d := Nat.zero_lt_of_lt hr
    have hlow : x % d = r := by
      have hmod := congrArg (· % d) h
      simpa [Nat.mod_eq_of_lt hr] using hmod
    rw [hlow] at h
    exact ⟨hlow, Nat.eq_of_mul_eq_mul_left hd (Nat.add_left_cancel h)⟩

/-- The least seed with given coordinates. -/
def leastSeed (dim row column : UInt16) : Nat :=
  row.toNat + dim.toNat * column.toNat

theorem leastSeed_lt (hrow : row < dim) (hcolumn : column < dim) :
    leastSeed dim row column < dim.toNat * dim.toNat := by
  rw [UInt16.lt_iff_toNat_lt] at hrow hcolumn
  calc row.toNat + dim.toNat * column.toNat < dim.toNat + dim.toNat * column.toNat :=
        Nat.add_lt_add_right hrow _
    _ = dim.toNat * (column.toNat + 1) := by rw [Nat.mul_succ, Nat.add_comm]
    _ ≤ dim.toNat * dim.toNat := Nat.mul_le_mul_left _ hcolumn

/-- A seed gives the coordinates whose least seed it repeats. -/
theorem ofSeed_eq_grid_iff (hrow : row < dim) :
    ofSeed dim seed = grid dim row column ↔
      seed.toNat % (dim.toNat * dim.toNat) = leastSeed dim row column := by
  have hrow' := UInt16.lt_iff_toNat_lt.mp hrow
  have hdim : 0 < dim.toNat := Nat.zero_lt_of_lt hrow'
  have hbase : max 1 dim.toNat = dim.toNat := Nat.max_eq_right hdim
  rw [ofSeed, hbase, grid.injEq, ofNat_eq_iff (Nat.mod_lt _ hdim), ofNat_eq_iff (Nat.mod_lt _ hdim),
    leastSeed, ← mod_eq_and_div_mod_eq_iff hrow']
  exact and_iff_right rfl

/-- A seed gives coordinates inside the grid. -/
theorem exists_ofSeed_eq (hdim : dim ≠ 0) (seed : UInt32) :
    ∃ row < dim, ∃ column < dim, ofSeed dim seed = grid dim row column := by
  have hpos := toNat_pos hdim
  have hbase : max 1 dim.toNat = dim.toNat := Nat.max_eq_right hpos
  have hinside : ∀ n, UInt16.ofNat (n % dim.toNat) < dim := by
    intro n
    have hlt := Nat.mod_lt n hpos
    rwa [UInt16.lt_iff_toNat_lt, UInt16.toNat_ofNat_of_lt' (Nat.lt_trans hlt dim.toNat_lt)]
  refine ⟨_, hinside seed.toNat, _, hinside (seed.toNat / dim.toNat), ?_⟩
  rw [ofSeed, hbase]

/-- Seeds give the same grid if and only if they differ by rounds through all coordinates. -/
theorem ofSeed_eq_ofSeed_iff (hdim : dim ≠ 0) {seed' : UInt32} :
    ofSeed dim seed = ofSeed dim seed' ↔
      seed.toNat % (dim.toNat * dim.toNat) = seed'.toNat % (dim.toNat * dim.toNat) := by
  obtain ⟨row, hrow, column, -, heq⟩ := exists_ofSeed_eq hdim seed'
  rw [heq, ofSeed_eq_grid_iff hrow, (ofSeed_eq_grid_iff hrow).mp heq]

/-- The seeds of one round give every grid once. -/
theorem ofSeed_bijOn (hdim : dim ≠ 0) :
    Set.BijOn (ofSeed dim) {seed | seed.toNat < dim.toNat * dim.toNat}
      {s | ∃ row < dim, ∃ column < dim, s = grid dim row column} := by
  refine ⟨fun seed _ => exists_ofSeed_eq hdim seed, fun seed hseed seed' hseed' heq => ?_, ?_⟩
  · have hmod := (ofSeed_eq_ofSeed_iff hdim).mp heq
    rw [Nat.mod_eq_of_lt hseed, Nat.mod_eq_of_lt hseed'] at hmod
    exact UInt32.toNat_inj.mp hmod
  · rintro s ⟨row, hrow, column, hcolumn, rfl⟩
    have hlt := leastSeed_lt hrow hcolumn
    have hword : (UInt32.ofNat (leastSeed dim row column)).toNat = leastSeed dim row column :=
      UInt32.toNat_ofNat_of_lt' (Nat.lt_trans hlt (toNat_mul_toNat_lt dim dim))
    refine ⟨UInt32.ofNat (leastSeed dim row column), hword.trans_lt hlt, ?_⟩
    rw [ofSeed_eq_grid_iff hrow, hword, Nat.mod_eq_of_lt hlt]

/-- The number of words of which something holds. -/
theorem card_words (p : Nat → Prop) [DecidablePred p] :
    Finset.card {word : UInt32 | p word.toNat} = Nat.count p (2 ^ 32) := by
  rw [Nat.count_eq_card_filter_range]
  refine Finset.card_nbij UInt32.toNat (fun word hword => ?_) (fun _ _ _ _ => UInt32.toNat_inj.mp)
    fun n hn => ?_
  · rw [Finset.mem_coe, Finset.mem_filter] at hword ⊢
    exact ⟨Finset.mem_range.mpr word.toNat_lt, hword.2⟩
  · rw [Finset.mem_coe, Finset.mem_filter, Finset.mem_range] at hn
    have hn' : (UInt32.ofNat n).toNat = n := UInt32.toNat_ofNat_of_lt' hn.1
    refine ⟨UInt32.ofNat n, ?_, hn'⟩
    rw [Finset.mem_coe, Finset.mem_filter, hn']
    exact ⟨Finset.mem_univ _, hn.2⟩

/-- The number of seeds that give a grid. -/
def seedCount (dim row column : UInt16) : Nat :=
  Finset.card {seed : UInt32 | ofSeed dim seed = grid dim row column}

/-- A grid has one seed in every full round, and one more if the last round comes to it. -/
theorem seedCount_eq (hrow : row < dim) (hcolumn : column < dim) :
    seedCount dim row column = 2 ^ 32 / (dim.toNat * dim.toNat) +
      if leastSeed dim row column < 2 ^ 32 % (dim.toNat * dim.toNat) then 1 else 0 := by
  have hlt := leastSeed_lt hrow hcolumn
  have hcount := Nat.count_modEq_card (2 ^ 32) (Nat.zero_lt_of_lt hlt) (leastSeed dim row column)
  simp only [Nat.ModEq, Nat.mod_eq_of_lt hlt] at hcount
  rw [← hcount, ← card_words, seedCount]
  simp only [ofSeed_eq_grid_iff hrow]

/-- **Seeds are spread evenly.**  For every dimension but zero, a seed gives a grid that is
accepted.  The seeds below the square of the dimension give every grid of that dimension once, and
seeds give the same grid if and only if they agree modulo this square.  Over all seeds, no grid is
given more than once more often than any other. -/
theorem ofSeed_even (hdim : dim ≠ 0) :
    (∀ seed, (ofSeed dim seed).check = .ok ()) ∧
    Set.BijOn (ofSeed dim) {seed | seed.toNat < dim.toNat * dim.toNat}
      {s | ∃ row < dim, ∃ column < dim, s = grid dim row column} ∧
    (∀ seed seed' : UInt32, ofSeed dim seed = ofSeed dim seed' ↔
      seed.toNat % (dim.toNat * dim.toNat) = seed'.toNat % (dim.toNat * dim.toNat)) ∧
    ∀ row < dim, ∀ column < dim, ∀ row' < dim, ∀ column' < dim,
      seedCount dim row column ≤ seedCount dim row' column' + 1 := by
  refine ⟨fun seed => ?_, ofSeed_bijOn hdim, fun seed seed' => ofSeed_eq_ofSeed_iff hdim, ?_⟩
  · obtain ⟨row, hrow, column, hcolumn, heq⟩ := exists_ofSeed_eq hdim seed
    rw [heq, check_grid_eq_ok_iff]
    exact ⟨hrow, hcolumn⟩
  · intro row hrow column hcolumn row' hrow' column' hcolumn'
    rw [seedCount_eq hrow hcolumn, seedCount_eq hrow' hcolumn']
    split <;> omega

/-- In the widest grid one round takes all seeds but 131071. -/
theorem ofSeed_even_widest :
    (65535 : UInt16) ≠ 0 ∧ (ofSeed 65535 4294967295).check = .ok () ∧
    Set.BijOn (ofSeed 65535)
      {seed | seed.toNat < (65535 : UInt16).toNat * (65535 : UInt16).toNat}
      {s | ∃ row < 65535, ∃ column < 65535, s = grid 65535 row column} ∧
    (ofSeed 65535 4294967295 = ofSeed 65535 131070) ∧
    seedCount 65535 0 0 ≤ seedCount 65535 65534 65534 + 1 := by
  have hdim : (65535 : UInt16) ≠ 0 := by decide
  obtain ⟨hcheck, hbij, hround, heven⟩ := ofSeed_even hdim
  exact ⟨hdim, hcheck 4294967295, hbij, (hround 4294967295 131070).mpr (by decide),
    heven 0 (by decide) 0 (by decide) 65534 (by decide) 65534 (by decide)⟩

end SlotScheme

end PeerBeacon
