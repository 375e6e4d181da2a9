import Mathlib.Data.List.TakeWhile
import PeerBeacon.Proofs.Console.Framing
import PeerBeacon.Proofs.Json.Readback

/-!
# What a listener gets from a message

Whoever listens to a node splits what arrives at the line feeds and reads each piece.  This works as
far as a message has its line feed and its text says which message it is.

The text does: it is a JSON text from which the members of the message can be read back, so that
different messages have different texts (`Message.serialize_lossless`).  Neither long numbers nor
quotes and commas inside strings make a difference.

The line feed is not always there.  A message that leaves room in its buffer is ended by one and is
a line of its own, whatever follows it.  But a message that fills its buffer to the last byte counts
as put into it all the same, and what follows it is on the same line
(`Message.serialize_ended_iff`, `Message.not_ended_of_exact_fit`).
-/

namespace PeerBeacon

namespace Message

open Json

/-! ## The line feed -/

theorem lineFeed_notMem_bytes (m : Message) : 0x0A ∉ m.bytes :=
  fun h => not_isTerminator_of_mem_bytes h rfl

/-- A message is left out of its buffer, fills it, or leaves room for the line feed. -/
theorem serialize_cases (m : Message) (capacity : Nat) :
    (capacity < m.bytes.length ∧ m.serialize capacity = none) ∨
    (m.bytes.length = capacity ∧ m.serialize capacity = some m.bytes) ∨
    (m.bytes.length < capacity ∧ m.serialize capacity = some (m.bytes ++ [0x0A])) := by
  unfold serialize
  split_ifs with hlong hexact
  · exact .inl ⟨hlong, rfl⟩
  · exact .inr (.inl ⟨hexact, rfl⟩)
  · exact .inr (.inr ⟨by omega, rfl⟩)

/-- The frame of a message is its text and one line feed, so that the message is a line of its own
whatever follows. -/
structure Ended (m : Message) (frame : List UInt8) : Prop where
  eq_append : frame = m.bytes ++ [0x0A]
  count_lineFeed : frame.count 0x0A = 1
  own_line : ∀ later, (frame ++ later).splitOn 0x0A = m.bytes :: later.splitOn 0x0A

/-- The frame of a message is its text alone, so that the message goes on with what follows. -/
structure Unended (m : Message) (frame : List UInt8) : Prop where
  eq_bytes : frame = m.bytes
  count_lineFeed : frame.count 0x0A = 0
  same_line : ∀ later,
    (frame ++ later).splitOn 0x0A = (later.splitOn 0x0A).modifyHead (m.bytes ++ ·)

theorem ended_append (m : Message) : m.Ended (m.bytes ++ [0x0A]) where
  eq_append := rfl
  count_lineFeed := by
    rw [List.count_append, List.count_eq_zero_of_not_mem m.lineFeed_notMem_bytes]
    rfl
  own_line later := by
    rw [List.append_assoc, List.singleton_append,
      List.splitOn_append_cons_self_of_not_mem m.lineFeed_notMem_bytes]

theorem splitOn_append_of_notMem {piece : List UInt8} (h : 0x0A ∉ piece) (later : List UInt8) :
    (piece ++ later).splitOn 0x0A = (later.splitOn 0x0A).modifyHead (piece ++ ·) := by
  induction piece with
  | nil => exact (LineBuffer.modifyHead_nil_append _).symm
  | cons c piece ih =>
    have hc : ¬(c == 0x0A) = true := fun heq => h (beq_iff_eq.mp heq ▸ List.mem_cons_self)
    have hpiece : 0x0A ∉ piece := fun hmem => h (List.mem_cons_of_mem c hmem)
    rw [List.cons_append, List.splitOn_cons_eq_if_modifyHead, if_neg hc, ih hpiece,
      List.modifyHead_modifyHead]
    rfl

theorem unended_bytes (m : Message) : m.Unended m.bytes where
  eq_bytes := rfl
  count_lineFeed := List.count_eq_zero_of_not_mem m.lineFeed_notMem_bytes
  same_line := splitOn_append_of_notMem m.lineFeed_notMem_bytes

theorem not_ended_of_unended {m : Message} {frame : List UInt8} (h : m.Unended frame) :
    ¬m.Ended frame := by
  intro hended
  have hone := hended.count_lineFeed
  rw [h.count_lineFeed] at hone
  cases hone

/-- **A message has its line feed unless it fills its buffer.**  The text of a message is a JSON
text, and its members can be read back from it.  It is put into any buffer that has room for it and
into no other.  It is ended by one line feed if the buffer has room for that too, and if the text
fills the buffer exactly, then there is no line feed. -/
theorem serialize_ended_iff (m : Message) (capacity : Nat) :
    (∃ d : Document, d.bytes = m.bytes) ∧ readScalars m.bytes = some m.members ∧
      ((m.serialize capacity).isSome ↔ m.bytes.length ≤ capacity) ∧
      ∀ frame, m.serialize capacity = some frame →
        (m.Ended frame ↔ m.bytes.length ≠ capacity) ∧
          (m.Unended frame ↔ m.bytes.length = capacity) := by
  obtain ⟨d, hd, -⟩ := exists_document m.members
  refine ⟨⟨d, hd⟩, readScalars_written m.members, ?_⟩
  rcases m.serialize_cases capacity with ⟨hlength, heq⟩ | ⟨hlength, heq⟩ | ⟨hlength, heq⟩
  · rw [heq]
    refine ⟨by simp [hlength], fun frame h => ?_⟩
    cases h
  · rw [heq]
    refine ⟨by simp [hlength], fun frame h => ?_⟩
    cases h
    have hunended := m.unended_bytes
    have hended := not_ended_of_unended hunended
    exact ⟨by simp [hended, hlength], by simp [hunended, hlength]⟩
  · rw [heq]
    refine ⟨by simp [hlength.le], fun frame h => ?_⟩
    cases h
    have hended := m.ended_append
    have hunended : ¬m.Unended (m.bytes ++ [0x0A]) := fun h => not_ended_of_unended h hended
    exact ⟨by simp [hended, hlength.ne], by simp [hunended, hlength.ne]⟩

/-- Some messages are put into a buffer without a line feed. -/
theorem not_ended_of_exact_fit :
    ¬∀ (m : Message) (capacity : Nat) (frame : List UInt8), m.serialize capacity = some frame →
      frame = m.bytes ++ [0x0A] := by
  intro h
  have hlength : (event (.detect 3 0) 15).bytes.length = 42 := by decide +kernel
  have heq := h (event (.detect 3 0) 15) 42 (event (.detect 3 0) 15).bytes (by
    rw [serialize, hlength]
    rfl)
  have := congrArg List.length heq
  simp at this

/-! ## The text -/

theorem word_inj {w v : UInt32} : word w = word v ↔ w = v := by
  rw [word, word, Scalar.number.injEq, Int.natCast_inj, UInt32.toNat_inj]

theorem members_event_inj {e f : Event} {ts us : UInt32} :
    (event e ts).members = (event f us).members ↔ e = f ∧ ts = us := by
  constructor
  · intro h
    cases e <;> cases f <;> simp_all [members, word_inj]
  · rintro ⟨rfl, rfl⟩
    rfl

theorem members_status_inj {q r : StatusReport} :
    (status q).members = (status r).members ↔ q = r := by
  constructor
  · intro h
    obtain ⟨_, _, _, _, _, _, ⟨_, _, _, _, _, _, _⟩, _, _, _, _⟩ := q
    obtain ⟨_, _, _, _, _, _, ⟨_, _, _, _, _, _, _⟩, _, _, _, _⟩ := r
    simpa only [members, List.cons.injEq, Prod.mk.injEq, Scalar.flag.injEq, Scalar.number.injEq,
      Scalar.text.injEq, word_inj, Int.natCast_inj, UInt8.toNat_inj, Int16.toInt_inj, true_and,
      and_true, StatusReport.mk.injEq, Counters.mk.injEq, and_assoc] using h
  · rintro rfl
    rfl

/-- The members of an event and those of a status report differ in the kind already. -/
theorem members_event_ne_status (e : Event) (ts : UInt32) (r : StatusReport) :
    (event e ts).members ≠ (status r).members := by
  intro h
  have hkind := congrArg List.head? h
  cases e <;> simp [members] at hkind

theorem members_injective : Function.Injective members := by
  intro m n h
  cases m with
  | event e ts =>
    cases n with
    | event f us =>
      obtain ⟨rfl, rfl⟩ := members_event_inj.mp h
      rfl
    | status r => exact absurd h (members_event_ne_status e ts r)
  | status q =>
    cases n with
    | event f us => exact absurd h.symm (members_event_ne_status f us q)
    | status r => rw [members_status_inj.mp h]

theorem bytes_injective : Function.Injective bytes := fun _ _ h =>
  members_injective (writtenObject_injective h)

/-- The text in a buffer: what stands before the line feed, if there is one. -/
def textIn (frame : List UInt8) : List UInt8 :=
  frame.takeWhile (· != 0x0A)

/-- What is in the buffer of a message is its text, with a line feed or without. -/
theorem textIn_of_serialize {m : Message} {capacity : Nat} {frame : List UInt8}
    (h : m.serialize capacity = some frame) : textIn frame = m.bytes := by
  have hkeep : ∀ b ∈ m.bytes, (b != 0x0A) = true := by
    intro b hb
    rw [bne_iff_ne]
    rintro rfl
    exact m.lineFeed_notMem_bytes hb
  rcases m.serialize_cases capacity with ⟨_, heq⟩ | ⟨_, heq⟩ | ⟨_, heq⟩
  · rw [heq] at h
    cases h
  · rw [heq] at h
    cases h
    exact List.takeWhile_eq_self_iff.mpr hkeep
  · rw [heq] at h
    cases h
    rw [textIn, List.takeWhile_append_of_pos hkeep]
    exact List.append_nil _

/-- **The text of a message determines the message.**  Let two messages be put into two buffers, of
the same capacity or not.  If what the buffers hold is the same up to the line feed, then so are the
messages; if they report events, these are the same and were reported at the same time. -/
theorem serialize_lossless {m n : Message} {c d : Nat} {s t : List UInt8}
    (hm : m.serialize c = some s) (hn : n.serialize d = some t) :
    (textIn s = textIn t ↔ m = n) ∧
      ∀ (e f : Event) (ts us : UInt32), m = event e ts → n = event f us →
        (textIn s = textIn t ↔ e = f ∧ ts = us) := by
  have htext : textIn s = textIn t ↔ m = n := by
    rw [textIn_of_serialize hm, textIn_of_serialize hn]
    exact bytes_injective.eq_iff
  refine ⟨htext, ?_⟩
  rintro e f ts us rfl rfl
  rw [htext, event.injEq]

/-- A string that looks like the rest of a report is not taken for it. -/
theorem serialize_lossless_imitation :
    let q : Message := .status { widest "a\",\"version\":\"b" with version := "c" }
    let r : Message := .status { widest "a" with version := "b\",\"version\":\"c" }
    q.serialize 512 = some (q.bytes ++ [0x0A]) ∧ r.serialize 512 = some (r.bytes ++ [0x0A]) ∧
      (textIn (q.bytes ++ [0x0A]) = textIn (r.bytes ++ [0x0A]) ↔ q = r) ∧ q ≠ r := by
  intro q r
  have hq : q.serialize 512 = some (q.bytes ++ [0x0A]) := serialize_eq (by decide)
  have hr : r.serialize 512 = some (r.bytes ++ [0x0A]) := serialize_eq (by decide)
  exact ⟨hq, hr, (serialize_lossless hq hr).1, by decide⟩

end Message

end PeerBeacon
