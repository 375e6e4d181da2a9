/-!
# Lines from the console

The console delivers bytes one at a time.  A line ends at a line feed or a carriage return; the two
of them in a row end one line, because an empty line counts for nothing.  A line that is longer than
the buffer is dropped as a whole.
-/

namespace PeerBeacon

/-- The part of a line that has arrived so far. -/
structure LineBuffer where
  /-- The bytes of the line, unless it has grown too long. -/
  pending : List UInt8 := []
  /-- The line has grown too long, and what is left of it is being dropped. -/
  overflowed : Bool := false
  deriving DecidableEq, Repr

namespace LineBuffer

/-- The number of bytes that a line can have. -/
def limit : Nat := 512

/-- The bytes that end a line: line feed and carriage return. -/
def isTerminator (c : UInt8) : Bool :=
  c == 0x0A || c == 0x0D

/-- Takes the next byte, and gives the line that it completes. -/
def feed (b : LineBuffer) (c : UInt8) : Option (List UInt8) × LineBuffer :=
  if isTerminator c then
    (if b.pending = [] ∨ b.overflowed then none else some b.pending, {})
  else if b.overflowed then
    (none, b)
  else if b.pending.length < limit then
    (none, { b with pending := b.pending ++ [c] })
  else
    (none, { pending := [], overflowed := true })

/-- The buffer after some input. -/
def afterInput (b : LineBuffer) : List UInt8 → LineBuffer
  | [] => b
  | c :: s => (b.feed c).2.afterInput s

/-- The lines that some input completes, in order. -/
def lines (b : LineBuffer) : List UInt8 → List (List UInt8)
  | [] => []
  | c :: s => (b.feed c).1.toList ++ (b.feed c).2.lines s

theorem afterInput_append (b : LineBuffer) (s t : List UInt8) :
    b.afterInput (s ++ t) = (b.afterInput s).afterInput t := by
  induction s generalizing b with
  | nil => rfl
  | cons c s ih => exact ih _

theorem lines_append (b : LineBuffer) (s t : List UInt8) :
    b.lines (s ++ t) = b.lines s ++ (b.afterInput s).lines t := by
  induction s generalizing b with
  | nil => rfl
  | cons c s ih => simp [lines, afterInput, ih]

/-- After a terminator the buffer is as good as new. -/
theorem feed_terminator (b : LineBuffer) {c : UInt8} (h : isTerminator c) :
    (b.feed c).2 = {} := by
  simp [feed, h]

end LineBuffer

end PeerBeacon
