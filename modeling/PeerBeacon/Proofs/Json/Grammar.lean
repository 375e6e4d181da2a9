import Mathlib.Data.Bool.AllAny
import PeerBeacon.Json.Bare
import PeerBeacon.Proofs.Json.Encoding

/-!
# The grammar of JSON

The reader takes bytes and keeps little of them.  What it is given is described here by trees that
forget nothing: every gap between two tokens is there with its white space, every string with the
way its characters are written, every number with its digits.  A tree has bytes, and the JSON texts
are the bytes of trees.

What the reader is to keep of a tree is defined alongside (`Tree.kept`, `Members.kept`).
-/

namespace PeerBeacon.Json

/-! ## White space -/

/-- A character of white space. -/
inductive Blank where
  | space
  | tab
  | lineFeed
  | carriageReturn

def Blank.byte : Blank → UInt8
  | space => 0x20
  | tab => 0x09
  | lineFeed => 0x0A
  | carriageReturn => 0x0D

/-- What may stand between two tokens. -/
abbrev Gap := List Blank

def Gap.bytes (g : Gap) : List UInt8 :=
  g.map Blank.byte

/-! ## Strings -/

/-- A hexadecimal digit, in lower or upper case. -/
structure HexDigit where
  char : Char
  isHex : char ∈ "0123456789abcdefABCDEF".toList

/-- A part of a string. -/
inductive Piece where
  /-- A character that stands for itself. -/
  | plain (c : Char) (printable : 0x20 ≤ c.toNat) (unquoted : c ≠ '"' ∧ c ≠ '\\')
  /-- A backslash and a letter. -/
  | short (letter : Char) (known : letter ∈ "\"\\/bfnrt".toList)
  /-- A code unit by its four digits. -/
  | unicode (a b c d : HexDigit)

def Piece.written : Piece → List Char
  | plain c _ _ => [c]
  | short letter _ => ['\\', letter]
  | unicode a b c d => ['\\', 'u', a.char, b.char, c.char, d.char]

/-- A string, part by part. -/
abbrev Text := List Piece

/-- The string as it is written between its quotes. -/
def Text.raw (t : Text) : List Char :=
  t.flatMap Piece.written

/-- A string whose characters all stand for themselves. -/
def Text.plain (s : String)
    (h : s.toList.all fun c => 0x20 ≤ c.toNat ∧ c ≠ '"' ∧ c ≠ '\\') : Text :=
  have hplain := List.all_iff_forall_prop.mp h
  s.toList.attach.map fun c => .plain c.1 (hplain c.1 c.2).1 (hplain c.1 c.2).2

def Text.bytes (t : Text) : List UInt8 :=
  quote :: (encode t.raw ++ [quote])

/-! ## Numbers -/

/-- A decimal digit. -/
abbrev Digit := Fin 10

def Digit.char (d : Digit) : Char :=
  Nat.digitChar d

/-- The exponent of a number: `e` or `E`, a sign or none, and at least one digit. -/
structure Exponent where
  upper : Bool
  /-- The sign, if one is written; `true` stands for minus. -/
  sign : Option Bool
  first : Digit
  more : List Digit

def Exponent.written (e : Exponent) : List Char :=
  (if e.upper then 'E' else 'e') ::
    ((match e.sign with | none => [] | some false => ['+'] | some true => ['-']) ++
      Digit.char e.first :: e.more.map Digit.char)

/-- A number.  The whole part has no leading zeros; there may be a fraction and an exponent. -/
structure Number where
  negative : Bool
  whole : Nat
  /-- The digits after the point; the point goes with the first of them. -/
  fraction : List Digit := []
  exponent : Option Exponent := none

def Number.written (n : Number) : List Char :=
  (if n.negative then ['-'] else []) ++ Nat.toDigits 10 n.whole ++
    (if n.fraction = [] then [] else '.' :: n.fraction.map Digit.char) ++
    (match n.exponent with | none => [] | some e => e.written)

/-! ## Values -/

mutual

/-- A value. -/
inductive Tree where
  | null
  | flag (b : Bool)
  | number (n : Number)
  | text (t : Text)
  | array (inner : Gap) (elements : Elements)
  | object (inner : Gap) (members : Members)

/-- The elements of an array. -/
inductive Elements where
  | nil
  | cons (before : Gap) (value : Tree) (after : Gap) (others : Elements)

/-- The members of an object. -/
inductive Members where
  | nil
  | cons (before : Gap) (name : Text) (beforeColon afterColon : Gap) (value : Tree) (after : Gap)
      (others : Members)

end

mutual

def Tree.bytes : Tree → List UInt8
  | .null => ascii "null"
  | .flag b => ascii (if b then "true" else "false")
  | .number n => encode n.written
  | .text t => t.bytes
  | .array inner elements =>
    openBracket :: (inner.bytes ++ (elements.bytes true ++ [closeBracket]))
  | .object inner members =>
    openBrace :: (inner.bytes ++ (members.bytes true ++ [closeBrace]))

/-- The elements as they are written.  All but the first bring the comma before them. -/
def Elements.bytes : Elements → Bool → List UInt8
  | .nil, _ => []
  | .cons before value after others, first =>
    (if first then [] else [comma]) ++
      (before.bytes ++ (value.bytes ++ (after.bytes ++ others.bytes false)))

/-- The members as they are written.  All but the first bring the comma before them. -/
def Members.bytes : Members → Bool → List UInt8
  | .nil, _ => []
  | .cons before name beforeColon afterColon value after others, first =>
    (if first then [] else [comma]) ++
      (before.bytes ++ (name.bytes ++ (beforeColon.bytes ++ colon :: (afterColon.bytes ++
        (value.bytes ++ (after.bytes ++ others.bytes false))))))

end

/-- A JSON text that is an object. -/
structure Document where
  lead : Gap
  inner : Gap
  members : Members
  trail : Gap

def Document.bytes (d : Document) : List UInt8 :=
  d.lead.bytes ++ ((Tree.object d.inner d.members).bytes ++ d.trail.bytes)

/-! ## What is kept -/

/-- What the reader keeps of a value.  A bare value takes the white space after it along. -/
def Tree.kept (after : Gap) : Tree → Value
  | .text t => .text (String.ofList t.raw)
  | .array _ _ | .object _ _ => .nested
  | .null => .bare (Tree.null.bytes ++ after.bytes)
  | .flag b => .bare ((Tree.flag b).bytes ++ after.bytes)
  | .number n => .bare ((Tree.number n).bytes ++ after.bytes)

/-- What the reader keeps of the members of an object. -/
def Members.kept : Members → List Member
  | .nil => []
  | .cons _ name _ _ value after others =>
    { name := String.ofList name.raw, value := value.kept after } :: others.kept

/-- The values of all members of one name, the name being compared as it is written. -/
def Members.named (name : String) : Members → List Tree
  | .nil => []
  | .cons _ name' _ _ value _ others =>
    if String.ofList name'.raw = name then value :: others.named name else others.named name

end PeerBeacon.Json
