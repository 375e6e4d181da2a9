import PeerBeacon.Tick

/-!
# Announcements on the air

Every node broadcasts announcements: its id, a running number and the time of sending.  On the air
an announcement is a frame of exactly twelve bytes, three 32-bit words in little-endian order, with
no framing or checksum of its own.

Words are written in base 256, lowest digit first.  `Word.ofBytes_bytes` and `Word.bytes_ofBytes`
say that the four digits and the word determine each other; the two laws of the frame,
`Announcement.decode_encode` and `Announcement.encode_of_decode`, follow from them.
-/

namespace PeerBeacon

/-- The id under which a node is known on the air. -/
abbrev NodeId := UInt32

namespace NodeId

/-- The one id that no node carries. -/
abbrev reserved : NodeId := 0

end NodeId

/-! ## Words as digits in base 256 -/

namespace Word

/-- The word whose base-256 digits are given, lowest first. -/
def ofBytes (b₀ b₁ b₂ b₃ : UInt8) : UInt32 :=
  UInt32.ofNat (b₀.toNat + 256 * (b₁.toNat + 256 * (b₂.toNat + 256 * b₃.toNat)))

/-- The base-256 digit of a word at the place that is worth `unit`. -/
def byte (w : UInt32) (unit : Nat) : UInt8 :=
  UInt8.ofNat (w.toNat / unit)

/-- The four digits of a word, lowest first. -/
def bytes (w : UInt32) : List UInt8 :=
  [byte w 1, byte w 256, byte w 65536, byte w 16777216]

@[simp] theorem length_bytes (w : UInt32) : (bytes w).length = 4 := rfl

theorem toNat_byte (w : UInt32) (unit : Nat) : (byte w unit).toNat = w.toNat / unit % 256 := by
  simp [byte]

theorem toNat_ofBytes (b₀ b₁ b₂ b₃ : UInt8) :
    (ofBytes b₀ b₁ b₂ b₃).toNat =
      b₀.toNat + 256 * (b₁.toNat + 256 * (b₂.toNat + 256 * b₃.toNat)) := by
  have h₀ := b₀.toNat_lt
  have h₁ := b₁.toNat_lt
  have h₂ := b₂.toNat_lt
  have h₃ := b₃.toNat_lt
  rw [ofBytes, UInt32.toNat_ofNat']
  omega

/-- A word is recovered from its digits. -/
@[simp] theorem ofBytes_bytes (w : UInt32) :
    ofBytes (byte w 1) (byte w 256) (byte w 65536) (byte w 16777216) = w := by
  have h := w.toNat_lt
  apply UInt32.toNat_inj.mp
  simp only [toNat_ofBytes, toNat_byte]
  omega

/-- Digits are recovered from the word they form. -/
@[simp] theorem bytes_ofBytes (b₀ b₁ b₂ b₃ : UInt8) :
    bytes (ofBytes b₀ b₁ b₂ b₃) = [b₀, b₁, b₂, b₃] := by
  have h₀ := b₀.toNat_lt
  have h₁ := b₁.toNat_lt
  have h₂ := b₂.toNat_lt
  have h₃ := b₃.toNat_lt
  simp only [bytes, List.cons.injEq, ← UInt8.toNat_inj, toNat_byte, toNat_ofBytes, and_true]
  refine ⟨?_, ?_, ?_, ?_⟩ <;> omega

end Word

/-! ## The frame -/

/-- One broadcast announcement.  The running number serves diagnosis only, and the time is the
sender's own. -/
structure Announcement where
  source : NodeId
  sequence : UInt32
  timestamp : Tick
  deriving DecidableEq, Repr

namespace Announcement

/-- The number of bytes in a frame. -/
def frameLength : Nat := 12

/-- The frame of an announcement. -/
def encode (a : Announcement) : List UInt8 :=
  Word.bytes a.source ++ Word.bytes a.sequence ++ Word.bytes a.timestamp

/-- The announcement in a frame; anything that is not twelve bytes long is no frame. -/
def decode : List UInt8 → Option Announcement
  | [a₀, a₁, a₂, a₃, b₀, b₁, b₂, b₃, c₀, c₁, c₂, c₃] =>
    some
      { source := Word.ofBytes a₀ a₁ a₂ a₃
        sequence := Word.ofBytes b₀ b₁ b₂ b₃
        timestamp := Word.ofBytes c₀ c₁ c₂ c₃ }
  | _ => none

/-- The source can stand for a peer. -/
def hasValidSource (a : Announcement) : Bool :=
  a.source != NodeId.reserved

@[simp] theorem length_encode (a : Announcement) : a.encode.length = frameLength := rfl

theorem decode_encode (a : Announcement) : decode a.encode = some a := by
  simp [encode, decode, Word.bytes]

theorem encode_of_decode {frame : List UInt8} {a : Announcement} (h : decode frame = some a) :
    a.encode = frame := by
  unfold decode at h
  split at h
  · cases h
    simp [encode]
  · cases h

end Announcement

/-- The id of a node, read off its hardware address: the last four bytes as a big-endian word.  An
address whose tail is all zero gives 1, so that the reserved id is never handed out. -/
def NodeId.ofHardwareAddress (address : Vector UInt8 6) : NodeId :=
  let id := Word.ofBytes address[5] address[4] address[3] address[2]
  if id = NodeId.reserved then 1 else id

theorem NodeId.ofHardwareAddress_ne_reserved (address : Vector UInt8 6) :
    NodeId.ofHardwareAddress address ≠ NodeId.reserved := by
  unfold NodeId.ofHardwareAddress
  dsimp only
  split
  · decide
  · assumption

end PeerBeacon
