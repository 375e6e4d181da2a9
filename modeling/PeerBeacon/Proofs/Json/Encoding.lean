import Mathlib.Data.List.Basic
import PeerBeacon.Json.Skim

/-!
# Characters as bytes

The writer puts characters together and the reader takes bytes apart.  Between the two stands UTF-8,
of which little matters here: an ASCII character is one byte, and the other characters have no byte
that could be taken for one (`mem_utf8EncodeChar`).  So what is looked for among the characters,
such as a quote or a line feed, can as well be looked for among the bytes. -/

namespace PeerBeacon.Json

/-- Some characters in UTF-8. -/
def encode (s : List Char) : List UInt8 :=
  s.flatMap String.utf8EncodeChar

@[simp] theorem encode_cons (c : Char) (s : List Char) :
    encode (c :: s) = String.utf8EncodeChar c ++ encode s :=
  rfl

@[simp] theorem encode_append (s t : List Char) : encode (s ++ t) = encode s ++ encode t :=
  List.flatMap_append

/-- An ASCII character is one byte. -/
theorem utf8EncodeChar_of_ascii {c : Char} (h : c.toNat < 0x80) :
    String.utf8EncodeChar c = [UInt8.ofNat c.toNat] :=
  if_pos (Nat.le_of_lt_succ h)

/-- A byte of a character is that character itself, or it is no ASCII character. -/
theorem mem_utf8EncodeChar {c : Char} {b : UInt8} (h : b ∈ String.utf8EncodeChar c) :
    b.toNat = c.toNat ∨ 0x80 ≤ b.toNat := by
  have hbyte : ∀ n, 0x80 ≤ n → n < 256 → 0x80 ≤ (UInt8.ofNat n).toNat := fun n hlow hhigh => by
    rw [UInt8.toNat_ofNat_of_lt' hhigh]
    exact hlow
  simp only [String.utf8EncodeChar] at h
  split at h
  case isTrue hascii =>
    obtain rfl := List.mem_singleton.mp h
    exact .inl (UInt8.toNat_ofNat_of_lt' (by simp only [UInt8.size]; omega))
  all_goals
    right
    repeat' split at h
    all_goals
      simp only [List.mem_cons, List.not_mem_nil, or_false] at h
      rcases h with rfl | rfl | rfl | rfl <;> exact hbyte _ (by omega) (by omega)

/-- The bytes of ASCII digits, one for one. -/
theorem encode_digits {s : List Char} (h : ∀ c ∈ s, c.isDigit) :
    encode s = s.map fun c => UInt8.ofNat c.toNat := by
  induction s with
  | nil => rfl
  | cons c s ih =>
    have hhigh := (Char.isDigit_iff_toNat.mp (h c List.mem_cons_self)).2
    have hascii : c.toNat < 0x80 := Nat.lt_of_le_of_lt hhigh (by decide)
    rw [encode_cons, utf8EncodeChar_of_ascii hascii, List.singleton_append, List.map_cons,
      ih fun d hd => h d (List.mem_cons_of_mem c hd)]

theorem isDigit_of_mem_toDigits {n : Nat} : ∀ c ∈ Nat.toDigits 10 n, c.isDigit := fun _ hc =>
  Nat.isDigit_of_mem_toDigits (by decide) (Nat.le_refl 10) hc

theorem fromUTF8?_encode (s : List Char) :
    String.fromUTF8? ⟨(encode s).toArray⟩ = some (String.ofList s) := by
  have hencode : s.utf8Encode = ⟨(encode s).toArray⟩ := ByteArray.ext List.data_toByteArray
  rw [← hencode, String.fromUTF8?, dif_pos ByteArray.isValidUTF8_utf8Encode]
  rfl

end PeerBeacon.Json
