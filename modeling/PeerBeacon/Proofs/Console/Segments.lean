import Mathlib.Data.List.DropRight
import PeerBeacon.Proofs.Console.Control

/-!
# Lines, byte by byte

`LineBuffer.lines_empty` says which lines come out of some input as a whole.  Here it is said what
each byte completes: a line is given at the terminator that ends it, it is everything that stands
between that terminator and the one before (`LineBuffer.Ends`), and it is given if and only if it
has between 1 and 512 bytes.  So no part of a longer piece ever comes out, and none of it gets into
a later line.

A line buffer is a list that is emptied after each line.  In the memory of a node there is no list
but a fixed number of cells and a count of those that are filled (`LineBuffer.Cells`); nothing is
ever erased, so that the cells beyond the count hold what is left of earlier lines.  The count alone
keeps it out of later ones: the cells that are filled are a line buffer
(`LineBuffer.Cells.view`) and go through the same states as one, whatever the other cells hold.

The main statement is `LineBuffer.answers_segments`.
-/

namespace PeerBeacon

namespace LineBuffer

/-- What each byte of some input completes. -/
def answers (b : LineBuffer) : List UInt8 → List (Option (List UInt8))
  | [] => []
  | c :: s => (b.feed c).1 :: (b.feed c).2.answers s

theorem answers_append (b : LineBuffer) (s t : List UInt8) :
    b.answers (s ++ t) = b.answers s ++ (b.afterInput s).answers t := by
  induction s generalizing b with
  | nil => rfl
  | cons c s ih => rw [List.cons_append, answers, ih, answers, afterInput, List.cons_append]

theorem length_answers (b : LineBuffer) (s : List UInt8) : (b.answers s).length = s.length := by
  induction s generalizing b with
  | nil => rfl
  | cons c s ih => rw [answers, List.length_cons, ih, List.length_cons]

/-- The lines are what the bytes complete, in order. -/
theorem lines_eq_filterMap_answers (b : LineBuffer) (s : List UInt8) :
    b.lines s = (b.answers s).filterMap id := by
  induction s generalizing b with
  | nil => rfl
  | cons c s ih =>
    rw [lines, answers, ih, List.filterMap_cons]
    cases (b.feed c).1 <;> rfl

theorem getElem?_answers (b : LineBuffer) (s : List UInt8) (k : Nat) :
    (b.answers s)[k]? = s[k]?.map fun c => ((b.afterInput (s.take k)).feed c).1 := by
  induction s generalizing b k with
  | nil => rfl
  | cons c s ih =>
    cases k with
    | zero => rfl
    | succ k =>
      rw [answers, List.getElem?_cons_succ, ih, List.getElem?_cons_succ, List.take_succ_cons,
        afterInput]

/-! ## The piece that is not terminated yet -/

/-- The bytes after the last terminator. -/
def openPiece (input : List UInt8) : List UInt8 :=
  input.rtakeWhile (!isTerminator ·)

/-- After any input the buffer holds the piece that is not terminated yet. -/
theorem afterInput_empty (input : List UInt8) :
    afterInput {} input = holding (openPiece input) := by
  induction input using List.reverseRecOn with
  | nil => rfl
  | append_singleton input c ih =>
    rw [afterInput_append, ih, afterInput, afterInput]
    by_cases hc : isTerminator c
    · have hpiece : openPiece (input ++ [c]) = [] := List.rtakeWhile_concat_neg _ _ _ (by simp [hc])
      rw [hpiece, feed_terminator _ hc]
      rfl
    · have hpiece : openPiece (input ++ [c]) = openPiece input ++ [c] :=
        List.rtakeWhile_concat_pos _ _ _ (by simp [hc])
      rw [hpiece, feed_holding _ hc]

/-- The open piece is the one without terminators that reaches back to a terminator or to the
beginning. -/
theorem openPiece_eq_iff {input piece : List UInt8} :
    openPiece input = piece ↔
      (∀ c ∈ piece, ¬isTerminator c) ∧
        ∃ before, input = before ++ piece ∧ ∀ c, before.getLast? = some c → isTerminator c := by
  constructor
  · rintro rfl
    refine ⟨fun c hc => ?_, input.rdropWhile (!isTerminator ·), ?_, fun c hc => ?_⟩
    · have := List.mem_rtakeWhile_imp hc
      rwa [Bool.not_eq_true', Bool.eq_false_iff] at this
    · exact List.rdropWhile_append_rtakeWhile.symm
    · obtain ⟨hne, rfl⟩ := List.mem_getLast?_eq_getLast hc
      have hlast := List.rdropWhile_last_not _ _ hne
      rwa [Bool.not_eq_true', Bool.not_eq_false] at hlast
  · rintro ⟨hpiece, before, rfl, hbefore⟩
    have hstop : before.reverse.takeWhile (!isTerminator ·) = [] := by
      rcases List.eq_nil_or_concat before with rfl | ⟨earlier, c, rfl⟩
      · rfl
      · have hc := hbefore c (by simp)
        rw [List.concat_eq_append, List.reverse_concat, List.takeWhile_cons_of_neg (by simp [hc])]
    have hkeep : ∀ c ∈ piece.reverse, (!isTerminator c) = true := by
      intro c hc
      rw [Bool.not_eq_true', Bool.eq_false_iff]
      exact hpiece c (List.mem_reverse.mp hc)
    rw [openPiece, List.rtakeWhile, List.reverse_append, List.takeWhile_append_of_pos hkeep, hstop,
      List.append_nil, List.reverse_reverse]

/-! ## Segments -/

/-- Byte `k` of the input is a terminator, and `segment` is all that stands between it and the
terminator before it or, if there is none, the beginning of the input. -/
structure Ends (input : List UInt8) (k : Nat) (segment : List UInt8) : Prop where
  terminator : ∃ c, input[k]? = some c ∧ isTerminator c
  unbroken : ∀ c ∈ segment, ¬isTerminator c
  maximal : ∃ before, input.take k = before ++ segment ∧
    ∀ c, before.getLast? = some c → isTerminator c

theorem ends_iff {input segment : List UInt8} {k : Nat} :
    Ends input k segment ↔
      (∃ c, input[k]? = some c ∧ isTerminator c) ∧ openPiece (input.take k) = segment := by
  rw [openPiece_eq_iff]
  exact ⟨fun h => ⟨h.terminator, h.unbroken, h.maximal⟩, fun h => ⟨h.1, h.2.1, h.2.2⟩⟩

/-- The byte that ends a segment gives it if it is a line, and nothing otherwise. -/
theorem getElem?_answers_of_ends {input segment : List UInt8} {k : Nat}
    (h : Ends input k segment) :
    (answers {} input)[k]? = some (if isLine segment then some segment else none) := by
  obtain ⟨⟨c, hc, hterm⟩, rfl⟩ := ends_iff.mp h
  rw [getElem?_answers, afterInput_empty, hc, Option.map_some,
    feed_holding_of_terminator _ hterm]

/-- A byte completes a line if and only if it ends a segment that is one. -/
theorem getElem?_answers_eq_some_iff {input line : List UInt8} {k : Nat} :
    (answers {} input)[k]? = some (some line) ↔ Ends input k line ∧ isLine line := by
  constructor
  · intro h
    have hfeed := h
    rw [getElem?_answers, Option.map_eq_some_iff, afterInput_empty] at hfeed
    obtain ⟨c, hc, hfeed⟩ := hfeed
    by_cases hterm : isTerminator c
    · have hends : Ends input k (openPiece (input.take k)) := ends_iff.mpr ⟨⟨c, hc, hterm⟩, rfl⟩
      rw [getElem?_answers_of_ends hends, Option.some_inj] at h
      obtain ⟨hline, heq⟩ := Option.ite_none_right_eq_some.mp h
      exact Option.some.inj heq ▸ ⟨hends, hline⟩
    · rw [feed_holding _ hterm] at hfeed
      cases hfeed
  · rintro ⟨hends, hline⟩
    rw [getElem?_answers_of_ends hends, if_pos hline]

/-! ## A buffer of cells -/

/-- A line buffer as it lies in memory: its cells, and how many of them hold bytes of the line. -/
structure Cells where
  cells : Vector UInt8 limit
  filled : Nat
  overflowed : Bool
  filled_le : filled ≤ limit

namespace Cells

/-- No line has begun; the cells hold whatever they held before. -/
def idle (cells : Vector UInt8 limit) : Cells where
  cells := cells
  filled := 0
  overflowed := false
  filled_le := Nat.zero_le limit

/-- The bytes in the filled cells. -/
def bytes (m : Cells) : List UInt8 :=
  m.cells.toList.take m.filled

/-- Takes the next byte, and gives the line that it completes. -/
def feed (m : Cells) (c : UInt8) : Option (List UInt8) × Cells :=
  if isTerminator c then
    (if 0 < m.filled ∧ ¬m.overflowed then some m.bytes else none, idle m.cells)
  else if m.overflowed then
    (none, m)
  else if h : m.filled < limit then
    (none, { m with cells := m.cells.set m.filled c, filled := m.filled + 1, filled_le := h })
  else
    (none, { idle m.cells with overflowed := true })

/-- What each byte of some input completes. -/
def answers (m : Cells) : List UInt8 → List (Option (List UInt8))
  | [] => []
  | c :: s => (m.feed c).1 :: (m.feed c).2.answers s

/-- The line buffer that the cells stand for. -/
def view (m : Cells) : LineBuffer where
  pending := m.bytes
  overflowed := m.overflowed

theorem length_bytes (m : Cells) : m.bytes.length = m.filled := by
  have := m.filled_le
  rw [bytes, List.length_take, Vector.length_toList]
  omega

theorem view_idle (cells : Vector UInt8 limit) : (idle cells).view = {} := rfl

/-- Filling the next cell appends to the bytes. -/
theorem take_set_succ (cells : Vector UInt8 limit) {n : Nat} (h : n < limit) (c : UInt8) :
    (cells.set n c).toList.take (n + 1) = cells.toList.take n ++ [c] := by
  have hlength : n < cells.toList.length := by rwa [Vector.length_toList]
  rw [Vector.toList_set, List.take_add_one, List.take_set_of_le (Nat.le_refl n),
    List.getElem?_set_self hlength]
  rfl

/-- **The cells do what the line buffer does.** -/
theorem feed_view (m : Cells) (c : UInt8) :
    m.view.feed c = ((m.feed c).1, (m.feed c).2.view) := by
  have hlength : m.view.pending.length = m.filled := m.length_bytes
  unfold feed LineBuffer.feed
  by_cases hterm : isTerminator c
  · have hline : (m.view.pending = [] ∨ m.view.overflowed = true) ↔
        ¬(0 < m.filled ∧ ¬m.overflowed = true) := by
      rw [← List.length_eq_zero_iff, hlength, not_and_or, not_not, Nat.not_lt, Nat.le_zero]
      rfl
    simp only [if_pos hterm, hline, ite_not]
    rfl
  · rw [if_neg hterm, if_neg hterm]
    by_cases hover : m.overflowed
    · rw [if_pos hover]
      exact if_pos hover
    · have hover' : ¬m.view.overflowed = true := hover
      rw [if_neg hover, if_neg hover', hlength]
      by_cases hroom : m.filled < limit
      · rw [if_pos hroom, dif_pos hroom]
        refine Prod.ext rfl ?_
        exact congrArg (LineBuffer.mk · m.overflowed) (take_set_succ m.cells hroom c).symm
      · rw [if_neg hroom, dif_neg hroom]
        rfl

theorem answers_view (m : Cells) (s : List UInt8) : m.view.answers s = m.answers s := by
  induction s generalizing m with
  | nil => rfl
  | cons c s ih => rw [LineBuffer.answers, feed_view, answers, ih]

end Cells

/-- **Each terminator gives the segment that it ends, if that has between 1 and 512 bytes.**  Feed
any input to a fresh line buffer.  There is one answer to each byte, and byte `k` gives a line if
and only if it ends that very segment and the segment is neither empty nor longer than 512 bytes; a
segment that is gives nothing.  The lines come in the order of the bytes that end them.  After a
terminator the buffer answers like a fresh one.  And all of this goes for a buffer of 512 cells,
whatever is left in them from before. -/
theorem answers_segments (input : List UInt8) :
    (answers {} input).length = input.length ∧
      (∀ (k : Nat) (line : List UInt8), (answers {} input)[k]? = some (some line) ↔
        Ends input k line ∧ 1 ≤ line.length ∧ line.length ≤ 512) ∧
      (∀ (k : Nat) (segment : List UInt8), Ends input k segment →
        segment.length = 0 ∨ 512 < segment.length → (answers {} input)[k]? = some none) ∧
      lines {} input = (answers {} input).filterMap id ∧
      (∀ (before : List UInt8) (c : UInt8) (later : List UInt8), isTerminator c →
        input = before ++ c :: later →
          answers {} input = answers {} (before ++ [c]) ++ answers {} later) ∧
      ∀ stale : Vector UInt8 limit, (Cells.idle stale).answers input = answers {} input := by
  have hline : ∀ piece, isLine piece = true ↔ 1 ≤ piece.length ∧ piece.length ≤ 512 := by
    intro piece
    rw [isLine, decide_eq_true_iff, ← List.length_pos_iff]
    rfl
  refine ⟨length_answers {} input, fun k line => ?_, fun k segment hends hlength => ?_,
    lines_eq_filterMap_answers {} input, ?_, fun stale => ?_⟩
  · rw [getElem?_answers_eq_some_iff, hline]
  · have hnot : ¬isLine segment = true := by
      rw [hline]
      omega
    rw [getElem?_answers_of_ends hends, if_neg hnot]
  · rintro before c later hterm rfl
    have hfresh : afterInput {} (before ++ [c]) = {} := by
      rw [afterInput_append, afterInput, afterInput, feed_terminator _ hterm]
    rw [List.append_cons, answers_append, hfresh]
  · rw [← Cells.answers_view, Cells.view_idle]

end LineBuffer

end PeerBeacon
