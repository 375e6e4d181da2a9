import Mathlib.Data.Nat.Digits.Defs
import PeerBeacon.Announcement

/-!
# Frames and announcements

A frame is nothing but twelve bytes, and twelve bytes are always a frame: whatever they are, they
are the frame of exactly one announcement.  So writing and reading are inverse to each other in both
directions (`Announcement.decode_exact`), and a receiver cannot tell noise of the right length from
an announcement.

The two laws that `PeerBeacon.Announcement` has would hold of any order of fields and digits.  The
order is told by the number that a frame spells in base 256, lowest digit first: the id is its
lowest word, the running number the next and the time the highest (`Announcement.ofDigits_encode`).
-/

namespace PeerBeacon

namespace Word

/-- Four bytes are the digits of a word. -/
theorem exists_bytes_eq {digits : List UInt8} (h : digits.length = 4) : ∃ w, bytes w = digits := by
  match digits, h with
  | [b₀, b₁, b₂, b₃], _ => exact ⟨ofBytes b₀ b₁ b₂ b₃, bytes_ofBytes b₀ b₁ b₂ b₃⟩

/-- The digits of a word spell the word, lowest digit first. -/
theorem ofDigits_bytes (w : UInt32) : Nat.ofDigits 256 ((bytes w).map UInt8.toNat) = w.toNat := by
  have hspell := congrArg UInt32.toNat (ofBytes_bytes w)
  rw [toNat_ofBytes] at hspell
  simp only [bytes, List.map_cons, List.map_nil, Nat.ofDigits_cons, Nat.ofDigits_nil]
  omega

end Word

namespace Announcement

/-! ## Which bytes are a frame -/

/-- Any twelve bytes are the frame of an announcement: they are cut into three words. -/
theorem exists_encode_eq {frame : List UInt8} (h : frame.length = 12) :
    ∃ a : Announcement, a.encode = frame := by
  obtain ⟨source, hsource⟩ : ∃ w, Word.bytes w = frame.take 4 :=
    Word.exists_bytes_eq (by rw [List.length_take, h]; rfl)
  obtain ⟨sequence, hsequence⟩ : ∃ w, Word.bytes w = (frame.drop 4).take 4 :=
    Word.exists_bytes_eq (by rw [List.length_take, List.length_drop, h]; rfl)
  obtain ⟨timestamp, htimestamp⟩ : ∃ w, Word.bytes w = (frame.drop 4).drop 4 :=
    Word.exists_bytes_eq (by rw [List.length_drop, List.length_drop, h])
  refine ⟨{ source, sequence, timestamp }, ?_⟩
  rw [encode, hsource, hsequence, htimestamp, List.append_assoc, List.take_append_drop,
    List.take_append_drop]

theorem decode_eq_some_iff_eq_encode (frame : List UInt8) (a : Announcement) :
    decode frame = some a ↔ frame = a.encode := by
  constructor
  · intro h
    exact (encode_of_decode h).symm
  · rintro rfl
    exact decode_encode a

theorem isSome_decode_iff (frame : List UInt8) :
    (decode frame).isSome ↔ frame.length = 12 := by
  constructor
  · intro h
    obtain ⟨a, ha⟩ := Option.isSome_iff_exists.mp h
    rw [← encode_of_decode ha, length_encode, frameLength]
  · intro h
    obtain ⟨a, rfl⟩ := exists_encode_eq h
    rw [decode_encode, Option.isSome_some]

/-- What has been read is written as it was, and nothing is read from anything but a frame. -/
theorem map_encode_decode (frame : List UInt8) :
    (decode frame).map encode = if frame.length = 12 then some frame else none := by
  split
  · next h =>
    obtain ⟨a, rfl⟩ := exists_encode_eq h
    rw [decode_encode, Option.map_some]
  · next h =>
    rw [← isSome_decode_iff, Option.not_isSome_iff_eq_none] at h
    rw [h, Option.map_none]

theorem encode_inj (a b : Announcement) : a.encode = b.encode ↔ a = b := by
  rw [← decode_eq_some_iff_eq_encode, decode_encode, Option.some_inj]

/-! ## Where the fields stand -/

/-- A frame spells, in base 256 and lowest digit first, the number that has the id as its lowest
word and the time as its highest. -/
theorem ofDigits_encode (a : Announcement) :
    Nat.ofDigits 256 (a.encode.map UInt8.toNat) =
      a.source.toNat + 2 ^ 32 * (a.sequence.toNat + 2 ^ 32 * a.timestamp.toNat) := by
  have hword : (256 : Nat) ^ 4 = 2 ^ 32 := by norm_num
  unfold encode
  rw [List.append_assoc, List.map_append, List.map_append, Nat.ofDigits_append,
    Nat.ofDigits_append, List.length_map, List.length_map, Word.length_bytes, Word.length_bytes,
    hword, Word.ofDigits_bytes, Word.ofDigits_bytes, Word.ofDigits_bytes]

/-- The id comes first, and the lowest byte of each word comes first. -/
example : encode { source := 0x01020304, sequence := 7, timestamp := 0xAABBCCDD } =
    [4, 3, 2, 1, 7, 0, 0, 0, 0xDD, 0xCC, 0xBB, 0xAA] := by
  decide

/-- **Frames and announcements are the same thing.**  Bytes are read as an announcement if and only
if they are its frame.  So exactly the strings of twelve bytes are read, reading undoes writing and
writing undoes reading, and different announcements have different frames, in which every field has
its place. -/
theorem decode_exact (frame : List UInt8) (a b : Announcement) :
    (decode frame = some a ↔ frame = a.encode) ∧
      ((decode frame).isSome ↔ frame.length = 12) ∧
      decode a.encode = some a ∧
      (decode frame).map encode = (if frame.length = 12 then some frame else none) ∧
      (a.encode = b.encode ↔ a = b) ∧
      Nat.ofDigits 256 (a.encode.map UInt8.toNat) =
        a.source.toNat + 2 ^ 32 * (a.sequence.toNat + 2 ^ 32 * a.timestamp.toNat) :=
  ⟨decode_eq_some_iff_eq_encode frame a, isSome_decode_iff frame, decode_encode a,
    map_encode_decode frame, encode_inj a b, ofDigits_encode a⟩

end Announcement

end PeerBeacon
