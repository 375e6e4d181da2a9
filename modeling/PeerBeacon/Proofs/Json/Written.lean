import Mathlib.Algebra.Ring.Nat
import Mathlib.Data.Bool.AllAny
import PeerBeacon.Json.Compact
import PeerBeacon.Proofs.Json.Encoding

/-!
# What a written object looks like

No character below U+0020 is in a written object, whatever the strings in it
(`le_toNat_of_mem_writtenObject`).  The number of bytes that it takes is the sum of what its names
and values take, and of the punctuation around them (`size_writtenObject`). -/

namespace PeerBeacon.Json

/-! ## No control characters -/

theorem le_toNat_of_mem_quoted {s : String} {d : Char} (h : d ∈ quoted s) : 0x20 ≤ d.toNat := by
  simp only [quoted, List.cons_append, List.mem_cons, List.mem_append, List.mem_flatMap,
    List.not_mem_nil, or_false] at h
  rcases h with rfl | ⟨c, -, hd⟩ | rfl
  · decide
  · exact le_toNat_of_mem_escape hd
  · decide

theorem le_toNat_of_mem_decimal {i : Int} {d : Char} (h : d ∈ decimal i) : 0x20 ≤ d.toNat := by
  have hdigit : ∀ {n}, d ∈ Nat.toDigits 10 n → 0x20 ≤ d.toNat := fun hd => by
    have := (Char.isDigit_iff_toNat.mp (isDigit_of_mem_toDigits d hd)).1
    exact Nat.le_trans (by decide) this
  cases i with
  | ofNat n => exact hdigit h
  | negSucc n =>
    rcases List.mem_cons.mp h with rfl | hd
    · decide
    · exact hdigit hd

theorem le_toNat_of_mem_written {v : Scalar} {d : Char} (h : d ∈ v.written) : 0x20 ≤ d.toNat := by
  cases v with
  | flag b =>
    have hflag : ∀ e ∈ (Scalar.flag b).written, 0x20 ≤ e.toNat :=
      List.all_iff_forall_prop.mp (by cases b <;> decide)
    exact hflag d h
  | number i => exact le_toNat_of_mem_decimal h
  | text s => exact le_toNat_of_mem_quoted h

/-- Every member but the first brings its comma. -/
theorem writtenObject_cons (m : String × Scalar) (ms : List (String × Scalar)) :
    writtenObject (m :: ms) =
      '{' :: (writtenMember m ++ ms.flatMap (',' :: writtenMember ·) ++ ['}']) := by
  have hcommas : ∀ m : String × Scalar, [','].intercalate ((m :: ms).map writtenMember) =
      writtenMember m ++ ms.flatMap (',' :: writtenMember ·) := by
    induction ms with
    | nil => intro m; simp
    | cons n ms ih =>
      intro m
      rw [List.map_cons, List.map_cons, List.intercalate_cons_cons, ← List.map_cons, ih n]
      simp
  rw [writtenObject, hcommas, List.cons_append]

/-- No character below U+0020 is written: an object stays on one line. -/
theorem le_toNat_of_mem_writtenObject {ms : List (String × Scalar)} {d : Char}
    (h : d ∈ writtenObject ms) : 0x20 ≤ d.toNat := by
  have hmember : ∀ {m}, d ∈ writtenMember m → 0x20 ≤ d.toNat := fun {m} hd => by
    rcases List.mem_append.mp hd with hname | hd
    · exact le_toNat_of_mem_quoted hname
    · rcases List.mem_cons.mp hd with rfl | hvalue
      · decide
      · exact le_toNat_of_mem_written hvalue
  cases ms with
  | nil =>
    have hempty : ∀ e ∈ writtenObject [], 0x20 ≤ e.toNat :=
      List.all_iff_forall_prop.mp (by decide)
    exact hempty d h
  | cons m ms =>
    simp only [writtenObject_cons, List.mem_cons, List.mem_append, List.mem_flatMap,
      List.not_mem_nil, or_false] at h
    rcases h with rfl | (hd | ⟨n, -, rfl | hd⟩) | rfl
    · decide
    · exact hmember hd
    · decide
    · exact hmember hd
    · decide

/-! ## How much is written -/

/-- The number of bytes that some characters take. -/
def size (s : List Char) : Nat :=
  (encode s).length

@[simp] theorem size_nil : size [] = 0 :=
  rfl

theorem size_append (s t : List Char) : size (s ++ t) = size s + size t := by
  rw [size, encode_append, List.length_append, size, size]

theorem size_cons_of_ascii {c : Char} (s : List Char) (h : c.toNat < 0x80) :
    size (c :: s) = size s + 1 := by
  rw [size, encode_cons, utf8EncodeChar_of_ascii h, List.singleton_append, List.length_cons, size]

/-- The number of bytes that a string takes between its quotes. -/
def escapedSize (s : String) : Nat :=
  size (s.toList.flatMap escape)

theorem size_quoted (s : String) : size (quoted s) = escapedSize s + 2 := by
  rw [quoted, size_append, size_cons_of_ascii _ (by decide), size_cons_of_ascii _ (by decide),
    escapedSize, size_nil]

theorem size_writtenMember (m : String × Scalar) :
    size (writtenMember m) = escapedSize m.1 + size m.2.written + 3 := by
  rw [writtenMember, size_append, size_cons_of_ascii _ (by decide), size_quoted]
  omega

/-- Two quotes, a colon and a comma or brace come with each member, and one more brace in all. -/
theorem size_writtenObject (m : String × Scalar) (ms : List (String × Scalar)) :
    size (writtenObject (m :: ms)) =
      ((m :: ms).map (escapedSize ·.1)).sum + ((m :: ms).map (size ·.2.written)).sum +
        4 * (m :: ms).length + 1 := by
  have hrest : size (ms.flatMap (',' :: writtenMember ·)) =
      (ms.map (escapedSize ·.1)).sum + (ms.map (size ·.2.written)).sum + 4 * ms.length := by
    induction ms with
    | nil => rfl
    | cons n ms ih =>
      rw [List.flatMap_cons, size_append, size_cons_of_ascii _ (by decide), size_writtenMember, ih]
      simp only [List.map_cons, List.sum_cons, List.length_cons]
      omega
  rw [writtenObject_cons, size_cons_of_ascii _ (by decide), size_append, size_append,
    size_writtenMember, hrest, size_cons_of_ascii _ (by decide), size_nil]
  simp only [List.map_cons, List.sum_cons, List.length_cons]
  omega

theorem size_toDigits_le {n k : Nat} (hk : 0 < k) (h : n < 10 ^ k) :
    size (Nat.toDigits 10 n) ≤ k := by
  rw [size, encode_digits isDigit_of_mem_toDigits, List.length_map]
  exact (Nat.length_toDigits_le_iff (by decide) hk).mpr h

theorem size_flag_le (b : Bool) : size (Scalar.flag b).written ≤ 5 := by
  cases b <;> decide

theorem size_text (s : String) : size (Scalar.text s).written = escapedSize s + 2 :=
  size_quoted s

end PeerBeacon.Json
