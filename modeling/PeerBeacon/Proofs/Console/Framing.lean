import Mathlib.Tactic.Linarith
import Mathlib.Tactic.Ring
import PeerBeacon.Console.Message
import PeerBeacon.Proofs.Console.Control
import PeerBeacon.Proofs.Json.Written

/-!
# What is sent can be told apart

A node sends its messages one after the other, and whoever listens has nothing to go by but the line
feeds.  Two things could go wrong.  A string could bring a line feed or a carriage return into a
message; the writer escapes both, and all other characters below U+0020 as well.  Or a message could
fill its buffer to the last byte and leave no room for the line feed at its end.  Only a status
report can grow that long, and only through the two strings in it.  Everything else in it takes at
most 334 of the 512 bytes (`Message.length_bytes_le`), and there are reports in which it does
(`Message.length_bytes_widest`), so that the strings may take 177 in their escaped form.

The main statement is `Message.lines_serialize`.
-/

namespace PeerBeacon

namespace Message

open Json

/-! ## The length of a message -/

theorem size_word_le (w : UInt32) : size (word w).written ≤ 10 :=
  size_toDigits_le (by decide) (lt_trans w.toNat_lt (by decide))

theorem size_byte_le (b : UInt8) : size (Scalar.number b.toNat).written ≤ 3 :=
  size_toDigits_le (by decide) (lt_trans b.toNat_lt (by decide))

theorem size_threshold_le (i : Int16) : size (Scalar.number i.toInt).written ≤ 6 := by
  have hlow := i.le_toInt
  have hhigh := i.toInt_lt
  rw [Scalar.written]
  generalize i.toInt = j at hlow hhigh ⊢
  cases j with
  | ofNat n =>
    have hn : n < 2 ^ 15 := Int.ofNat_lt.mp hhigh
    exact size_toDigits_le (by decide) (lt_trans hn (by decide))
  | negSucc n =>
    have hn : n + 1 < 10 ^ 5 := by omega
    rw [decimal, size_cons_of_ascii _ (by decide)]
    exact Nat.succ_le_succ (size_toDigits_le (by decide) hn)

/-- The number of bytes that the strings in a message take in their escaped form.  The name of its
kind apart, only a status report has strings. -/
def textSize : Message → Nat
  | event _ _ => 0
  | status r => escapedSize r.board + escapedSize r.version

/-- What the names of the members take, what their values take, and what stands around them. -/
theorem length_bytes (m : Message) :
    m.bytes.length = (m.members.map (escapedSize ·.1)).sum +
      (m.members.map (size ·.2.written)).sum + 4 * m.members.length + 1 := by
  cases m with
  | event event uptime => cases event <;> exact size_writtenObject _ _
  | status r => exact size_writtenObject _ _

theorem sum_names_le (m : Message) : (m.members.map (escapedSize ·.1)).sum ≤ 122 := by
  cases m with
  | event event uptime =>
    cases event <;> simp only [members, List.map_cons, List.map_nil] <;> decide
  | status r =>
    simp only [members, List.map_cons, List.map_nil]
    decide

theorem sum_values_le (m : Message) :
    (m.members.map (size ·.2.written)).sum ≤ 139 + m.textSize := by
  cases m with
  | event event uptime =>
    have hkind : ∀ kind ∈ ["detect", "leave", "absent"], size (Scalar.text kind).written ≤ 8 := by
      decide
    cases event with
    | detect id since =>
      simp only [members, List.map_cons, List.map_nil, List.sum_cons, List.sum_nil, textSize]
      linarith only [hkind "detect" (by decide), size_word_le id, size_word_le since,
        size_word_le uptime]
    | leave id since =>
      simp only [members, List.map_cons, List.map_nil, List.sum_cons, List.sum_nil, textSize]
      linarith only [hkind "leave" (by decide), size_word_le id, size_word_le since,
        size_word_le uptime]
    | absent id since dwell =>
      simp only [members, List.map_cons, List.map_nil, List.sum_cons, List.sum_nil, textSize]
      linarith only [hkind "absent" (by decide), size_word_le id, size_word_le since,
        size_word_le dwell, size_word_le uptime]
  | status r =>
    have hkind : size (Scalar.text "status").written = 8 := by decide
    simp only [members, List.map_cons, List.map_nil, List.sum_cons, List.sum_nil, textSize]
    linarith only [hkind, size_flag_le r.running, size_word_le r.uptime, size_word_le r.node,
      size_byte_le r.tracked, size_byte_le r.present, size_word_le r.refusals,
      size_word_le r.counters.sent, size_word_le r.counters.received,
      size_word_le r.counters.weak, size_word_le r.counters.rejected,
      size_word_le r.counters.detections, size_word_le r.counters.leaves,
      size_word_le r.counters.absences, size_threshold_le r.minRssi, size_word_le r.heapFree,
      size_text r.board, size_text r.version]

theorem length_members_le (m : Message) : m.members.length ≤ 18 := by
  cases m with
  | event event uptime => cases event <;> simp [members]
  | status r => exact le_rfl

/-- **All but the strings takes at most 334 bytes.** -/
theorem length_bytes_le (m : Message) : m.bytes.length ≤ 334 + m.textSize := by
  have hnames := m.sum_names_le
  have hvalues := m.sum_values_le
  have hmembers := m.length_members_le
  rw [length_bytes]
  omega

/-- The status report with the widest numbers there are, and a given board. -/
def widest (board : String) : StatusReport where
  running := false
  uptime := 0xFFFFFFFF
  node := 0xFFFFFFFF
  tracked := 0xFF
  present := 0xFF
  refusals := 0xFFFFFFFF
  counters :=
    { sent := 0xFFFFFFFF
      received := 0xFFFFFFFF
      weak := 0xFFFFFFFF
      rejected := 0xFFFFFFFF
      detections := 0xFFFFFFFF
      leaves := 0xFFFFFFFF
      absences := 0xFFFFFFFF }
  minRssi := -32768
  heapFree := 0xFFFFFFFF
  board := board
  version := ""

/-- The widest numbers leave nothing of the 334 bytes, so that strings of 178 bytes can fill the
buffer and leave no room for the line feed. -/
theorem length_bytes_widest (board : String) :
    (status (widest board)).bytes.length = 334 + (status (widest board)).textSize := by
  have hnames : ((status (widest board)).members.map (escapedSize ·.1)).sum = 122 := by
    simp only [members, List.map_cons, List.map_nil]
    decide
  have hvalues : ((status (widest board)).members.map (size ·.2.written)).sum =
      139 + (status (widest board)).textSize := by
    have hkind : size (Scalar.text "status").written = 8 := by decide
    have hword : size (word 0xFFFFFFFF).written = 10 := by decide
    have hbyte : size (Scalar.number (0xFF : UInt8).toNat).written = 3 := by decide
    have hthreshold : size (Scalar.number (-32768 : Int16).toInt).written = 6 := by decide
    have hflag : size (Scalar.flag false).written = 5 := by decide
    simp only [members, widest, textSize, List.map_cons, List.map_nil, List.sum_cons, List.sum_nil,
      hkind, hword, hbyte, hthreshold, hflag, size_text]
    ring
  have hmembers : (status (widest board)).members.length = 18 := rfl
  rw [length_bytes, hnames, hvalues, hmembers]
  ring

/-- No byte of a message ends a line. -/
theorem not_isTerminator_of_mem_bytes {m : Message} {b : UInt8} (h : b ∈ m.bytes) :
    ¬LineBuffer.isTerminator b := by
  obtain ⟨c, hc, hb⟩ := List.mem_flatMap.mp h
  have hc := le_toNat_of_mem_writtenObject hc
  have hb : 0x20 ≤ b.toNat := by
    rcases mem_utf8EncodeChar hb with heq | hhigh
    · rwa [heq]
    · exact le_trans (by decide) hhigh
  intro hterminator
  rcases Bool.or_eq_true_iff.mp hterminator with heq | heq
  · rw [beq_iff_eq.mp heq] at hb
    exact absurd hb (by decide)
  · rw [beq_iff_eq.mp heq] at hb
    exact absurd hb (by decide)

theorem isLine_bytes {m : Message} (h : m.textSize ≤ 177) : LineBuffer.isLine m.bytes := by
  refine decide_eq_true ⟨?_, ?_⟩
  · rw [bytes, written, writtenObject]
    exact List.cons_ne_nil _ _
  · exact m.length_bytes_le.trans ((Nat.add_le_add_left h 334).trans (by decide))

/-- A message whose strings are not too long is put into a buffer of 512 bytes together with its
line feed. -/
theorem serialize_eq {m : Message} (h : m.textSize ≤ 177) :
    m.serialize maxLength = some (m.bytes ++ [0x0A]) := by
  have hlength : m.bytes.length < maxLength :=
    m.length_bytes_le.trans_lt (Nat.lt_succ_of_le (Nat.add_le_add_left h 334))
  rw [serialize, if_neg hlength.le.not_gt, if_neg hlength.ne]

end Message

/-! ## Lines -/

namespace LineBuffer

/-- Bytes that end no line are taken in. -/
theorem feed_piece {more : List UInt8} (h : ∀ c ∈ more, ¬isTerminator c) :
    ∀ piece, (holding piece).lines more = [] ∧
      (holding piece).afterInput more = holding (piece ++ more) := by
  induction more with
  | nil => exact fun piece => ⟨rfl, congrArg holding piece.append_nil.symm⟩
  | cons c more ih =>
    intro piece
    obtain ⟨hlines, hafter⟩ := ih (fun d hd => h d (List.mem_cons_of_mem c hd)) (piece ++ [c])
    rw [lines, afterInput, feed_holding piece (h c List.mem_cons_self)]
    exact ⟨hlines, hafter.trans (congrArg holding (List.append_cons piece c more).symm)⟩

/-- A piece with its line feed is one line and leaves nothing behind. -/
theorem feed_line {piece : List UInt8} (h : ∀ c ∈ piece, ¬isTerminator c) (hline : isLine piece) :
    lines {} (piece ++ [0x0A]) = [piece] ∧ afterInput {} (piece ++ [0x0A]) = {} := by
  obtain ⟨hlines, hafter⟩ := feed_piece h []
  rw [List.nil_append] at hafter
  have hfeed : (holding piece).feed 0x0A = (some piece, {}) := by
    rw [feed_holding_of_terminator piece rfl, if_pos hline]
  have hfresh : ({} : LineBuffer) = holding [] := rfl
  rw [lines_append, afterInput_append, hfresh, hlines, hafter, List.nil_append, lines, afterInput,
    hfeed]
  exact ⟨rfl, rfl⟩

end LineBuffer

/-! ## Messages in a row -/

namespace Message

/-- **What is sent arrives, message by message.**  Let the strings in each of some messages take no
more than 177 bytes in their escaped form.  Then each of them can be put into a buffer of 512 bytes,
and if what is put there is sent one after the other, then whoever collects the bytes up to the line
feeds gets the messages one by one, in order, and nothing else, with nothing left over. -/
theorem lines_serialize (messages : List Message) (h : ∀ m ∈ messages, m.textSize ≤ 177) :
    ∃ frames : List (List UInt8),
      messages.map (·.serialize maxLength) = frames.map some ∧
        LineBuffer.lines {} frames.flatten = messages.map bytes ∧
        LineBuffer.afterInput {} frames.flatten = {} := by
  induction messages with
  | nil => exact ⟨[], rfl, rfl, rfl⟩
  | cons m messages ih =>
    have hm := h m List.mem_cons_self
    obtain ⟨frames, hframes, hlines, hafter⟩ := ih fun n hn => h n (List.mem_cons_of_mem m hn)
    obtain ⟨hline, hfresh⟩ :=
      LineBuffer.feed_line (fun c hc => not_isTerminator_of_mem_bytes hc) (isLine_bytes hm)
    refine ⟨(m.bytes ++ [0x0A]) :: frames, ?_, ?_, ?_⟩
    · rw [List.map_cons, serialize_eq hm, hframes, List.map_cons]
    · rw [List.flatten_cons, LineBuffer.lines_append, hline, hfresh, hlines, List.map_cons,
        List.singleton_append]
    · rw [List.flatten_cons, LineBuffer.afterInput_append, hfresh, hafter]

theorem lines_serialize_three :
    let messages : List Message :=
      [.event (.absent 7 100 25) 130, .status (widest "north\r\nwest"), .event (.leave 7 100) 119]
    (∀ m ∈ messages, m.textSize ≤ 177) ∧ ∃ frames : List (List UInt8),
      messages.map (·.serialize maxLength) = frames.map some ∧
        LineBuffer.lines {} frames.flatten = messages.map bytes ∧
        LineBuffer.afterInput {} frames.flatten = {} := by
  intro messages
  have h : ∀ m ∈ messages, m.textSize ≤ 177 := by decide
  exact ⟨h, lines_serialize messages h⟩

end Message

end PeerBeacon
