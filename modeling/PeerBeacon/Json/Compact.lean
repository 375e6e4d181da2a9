/-!
# Compact JSON objects

A writer for flat objects: members in the order given, no white space, numbers in decimal.

In a string only the quote, the backslash and the characters below U+0020 are escaped, five of the
latter by a letter and the others by four hexadecimal digits in upper case.  All else is written as
it is.
-/

namespace PeerBeacon.Json

/-- A value that a flat object can hold. -/
inductive Scalar where
  | flag (b : Bool)
  | number (i : Int)
  | text (s : String)
  deriving DecidableEq, Repr

/-- A hexadecimal digit in upper case. -/
def upperHexDigit (n : Nat) : Char :=
  if n < 10 then Char.ofNat ('0'.toNat + n) else Char.ofNat ('A'.toNat + (n - 10))

/-- How a character is written inside a string. -/
def escape (c : Char) : List Char :=
  if c = '"' then ['\\', '"']
  else if c = '\\' then ['\\', '\\']
  else if c = '\x08' then ['\\', 'b']
  else if c = '\t' then ['\\', 't']
  else if c = '\n' then ['\\', 'n']
  else if c = '\x0c' then ['\\', 'f']
  else if c = '\r' then ['\\', 'r']
  else if c.toNat < 0x20 then
    ['\\', 'u', '0', '0', upperHexDigit (c.toNat / 16), upperHexDigit (c.toNat % 16)]
  else [c]

/-- A string between its quotes. -/
def quoted (s : String) : List Char :=
  '"' :: s.toList.flatMap escape ++ ['"']

/-- An integer in decimal. -/
def decimal : Int → List Char
  | .ofNat n => Nat.toDigits 10 n
  | .negSucc n => '-' :: Nat.toDigits 10 (n + 1)

/-- A value as it is written. -/
def Scalar.written : Scalar → List Char
  | flag true => ['t', 'r', 'u', 'e']
  | flag false => ['f', 'a', 'l', 's', 'e']
  | number i => decimal i
  | text s => quoted s

/-- A member as it is written. -/
def writtenMember (m : String × Scalar) : List Char :=
  quoted m.1 ++ ':' :: m.2.written

/-- An object as it is written. -/
def writtenObject (members : List (String × Scalar)) : List Char :=
  '{' :: [','].intercalate (members.map writtenMember) ++ ['}']

/-- Characters that need no escape are written as they are. -/
theorem escape_eq_self {c : Char} (hq : c ≠ '"') (hb : c ≠ '\\') (h : 0x20 ≤ c.toNat) :
    escape c = [c] := by
  have h' : ∀ d : Char, d.toNat < 0x20 → c ≠ d := by
    rintro d hd rfl
    omega
  simp only [escape, hq, hb, h' '\x08' (by decide), h' '\t' (by decide), h' '\n' (by decide),
    h' '\x0c' (by decide), h' '\r' (by decide), Nat.not_lt.mpr h, if_false]

/-- No character below U+0020 survives in a string, so that a written object stays on one line. -/
theorem le_toNat_of_mem_escape {c d : Char} (h : d ∈ escape c) : 0x20 ≤ d.toNat := by
  have hex : ∀ n < 16, 0x20 ≤ (upperHexDigit n).toNat := by decide
  unfold escape at h
  repeat' split at h
  case isFalse.isFalse.isFalse.isFalse.isFalse.isFalse.isFalse.isTrue hcontrol =>
    simp only [List.mem_cons, List.not_mem_nil, or_false] at h
    rcases h with rfl | rfl | rfl | rfl | rfl | rfl
    · decide
    · decide
    · decide
    · decide
    · exact hex _ (by omega)
    · exact hex _ (by omega)
  case isFalse.isFalse.isFalse.isFalse.isFalse.isFalse.isFalse.isFalse hcontrol =>
    obtain rfl := List.mem_singleton.mp h
    omega
  all_goals
    simp only [List.mem_cons, List.not_mem_nil, or_false] at h
    rcases h with rfl | rfl <;> decide

end PeerBeacon.Json
