import PeerBeacon.Json.Skim

/-!
# Bare values

What a bare value means: a number, a truth value, or `null` for the lack of one.  White space after
the value belongs to the bytes that were read and is dropped here; any other byte that is left over
makes the value meaningless.
-/

namespace PeerBeacon.Json

/-- The bytes of an ASCII word. -/
def ascii (word : String) : List UInt8 :=
  word.toList.map fun c => UInt8.ofNat c.toNat

/-- The value of an ASCII digit. -/
def digit? (c : UInt8) : Option Nat :=
  if 0x30 ≤ c ∧ c ≤ 0x39 then some (c.toNat - 0x30) else none

/-- A natural number in decimal, without leading zeros. -/
def natural? : List UInt8 → Option Nat
  | [] => none
  | c :: s =>
    if c = 0x30 then
      if s = [] then some 0 else none
    else
      (c :: s).foldlM (fun n c => (digit? c).map (10 * n + ·)) 0

/-- An integer in decimal, with a minus sign if need be. -/
def integer? : List UInt8 → Option Int
  | [] => none
  | c :: s =>
    if c = 0x2D then (natural? s).map fun n => -(n : Int)
    else (natural? (c :: s)).map Int.ofNat

/-- An integer of 16 bits. -/
def int16? (s : List UInt8) : Option Int16 :=
  (integer? s).bind fun i => if -32768 ≤ i ∧ i ≤ 32767 then some (Int16.ofInt i) else none

/-- A truth value. -/
def bool? (s : List UInt8) : Option Bool :=
  if s = ascii "true" then some true
  else if s = ascii "false" then some false
  else none

/-- A bare value without the white space after it. -/
def trimSpace (s : List UInt8) : List UInt8 :=
  (s.reverse.dropWhile isSpace).reverse

/-- A bare value that may also be `null`, which stands for the lack of one. -/
def optional? {α : Type u} (read : List UInt8 → Option α) : Value → Option (Option α)
  | .bare bytes =>
    let word := trimSpace bytes
    if word = ascii "null" then some none else (read word).map some
  | .text _ | .nested => none

end PeerBeacon.Json
