/-!
# Skimming JSON objects

A reader for one flat object, as a small device reads it: by names and plain values, with no regard
for what it has no use for.  It works on bytes and is forgiving in some places and strict in others.

* Strings are kept as they are written.  A backslash shields the next byte, whatever it is, and
  nothing is unescaped; the bytes have to be UTF-8.
* A value that opens with neither a quote, a bracket nor a brace is *bare*: it consists of all bytes
  up to the next comma, closing brace or closing bracket, and there must be at least one.
* Arrays and objects inside the object are walked through and not kept.
* In an array, one element may come without a comma before it.  Usually that is the first; after a
  leading comma it may be any other.  In an object only the first member comes without a comma.

Each reader returns what it read together with the rest of the input, which is shorter
(`Parsed.rest_lt`).  The readers for values, array elements and object members call each other, and
this is why they end.
-/

namespace PeerBeacon.Json

/-! ## Bytes -/

/-- The byte `"`. -/
abbrev quote : UInt8 := 0x22

/-- The byte `\`. -/
abbrev backslash : UInt8 := 0x5C

/-- The byte `,`. -/
abbrev comma : UInt8 := 0x2C

/-- The byte `:`. -/
abbrev colon : UInt8 := 0x3A

/-- The byte `[`. -/
abbrev openBracket : UInt8 := 0x5B

/-- The byte `]`. -/
abbrev closeBracket : UInt8 := 0x5D

/-- The byte `{`. -/
abbrev openBrace : UInt8 := 0x7B

/-- The byte `}`. -/
abbrev closeBrace : UInt8 := 0x7D

/-- Space, line feed, tab and carriage return. -/
def isSpace (c : UInt8) : Bool :=
  c == 0x20 || c == 0x0A || c == 0x09 || c == 0x0D

/-- The bytes that end a bare value. -/
def isDelimiter (c : UInt8) : Bool :=
  c == comma || c == closeBrace || c == closeBracket

/-- The input after its leading white space. -/
def skipSpace (s : List UInt8) : List UInt8 :=
  s.dropWhile isSpace

theorem length_skipSpace_le (s : List UInt8) : (skipSpace s).length ≤ s.length :=
  (List.dropWhile_sublist isSpace).length_le

theorem length_lt_of_skipSpace {s t : List UInt8} {c : UInt8} (h : skipSpace s = c :: t) :
    t.length < s.length := by
  have := length_skipSpace_le s
  rw [h, List.length_cons] at this
  omega

/-! ## Values and what is left -/

/-- A value, as far as it is kept. -/
inductive Value where
  /-- A string, as it is written between its quotes. -/
  | text (raw : String)
  /-- A bare value. -/
  | bare (bytes : List UInt8)
  /-- An array or an object. -/
  | nested
  deriving DecidableEq, Repr

/-- A member of an object: its name and its value. -/
structure Member where
  name : String
  value : Value
  deriving DecidableEq, Repr

/-- What was read off the front of `s`, and what is left of it. -/
structure Parsed (α : Type u) (s : List UInt8) where
  value : α
  rest : List UInt8
  rest_lt : rest.length < s.length

namespace Parsed

/-- The same result, seen from a longer input. -/
def widen {α : Type u} {s t : List UInt8} (p : Parsed α s) (h : s.length ≤ t.length) :
    Parsed α t where
  value := p.value
  rest := p.rest
  rest_lt := Nat.lt_of_lt_of_le p.rest_lt h

/-- Changes the value. -/
def map {α : Type u} {β : Type v} {s : List UInt8} (f : α → β) (p : Parsed α s) :
    Parsed β s where
  value := f p.value
  rest := p.rest
  rest_lt := p.rest_lt

end Parsed

/-! ## Strings and bare values -/

/-- Splits the input at the quote that closes a string. -/
def splitAtQuote : List UInt8 → Option (List UInt8 × List UInt8)
  | [] => none
  | c :: s =>
    if c = quote then some ([], s)
    else if c = backslash then
      match s with
      | [] => none
      | d :: s => (splitAtQuote s).map fun (raw, rest) => (c :: d :: raw, rest)
    else (splitAtQuote s).map fun (raw, rest) => (c :: raw, rest)

/-- Nothing but the closing quote is lost. -/
theorem append_of_splitAtQuote {s raw rest : List UInt8}
    (h : splitAtQuote s = some (raw, rest)) : raw ++ quote :: rest = s := by
  fun_induction splitAtQuote s generalizing raw with
  | case1 => cases h
  | case2 => cases h; rfl
  | case3 => cases h
  | case4 _ _ _ ih =>
    obtain ⟨⟨raw', rest'⟩, h', heq⟩ := Option.map_eq_some_iff.mp h
    cases heq
    simp [ih h']
  | case5 _ _ _ _ ih =>
    obtain ⟨⟨raw', rest'⟩, h', heq⟩ := Option.map_eq_some_iff.mp h
    cases heq
    simp [ih h']

/-- The rest of a string, after its opening quote. -/
def readText (s : List UInt8) : Option (Parsed String s) :=
  match h : splitAtQuote s with
  | none => none
  | some (raw, rest) =>
    (String.fromUTF8? ⟨raw.toArray⟩).map fun text =>
      { value := text
        rest := rest
        rest_lt := by
          have := congrArg List.length (append_of_splitAtQuote h)
          simp only [List.length_append, List.length_cons] at this
          omega }

/-- A bare value: it takes at least one byte, and a delimiter follows it. -/
def readBare (s : List UInt8) : Option (Parsed (List UInt8) s) :=
  let rest := s.dropWhile (!isDelimiter ·)
  if h : rest ≠ [] ∧ rest.length < s.length then
    some { value := s.takeWhile (!isDelimiter ·), rest := rest, rest_lt := h.2 }
  else
    none

/-- The name of a member and the colon after it, with the comma in front that every member but the
first needs. -/
def readName (first : Bool) (s : List UInt8) : Option (Parsed String s) :=
  match h : skipSpace s with
  | [] => none
  | c :: t =>
    if first then
      if c = quote then
        nameAfterQuote t (length_lt_of_skipSpace h)
      else none
    else if c = comma then
      match h' : skipSpace t with
      | [] => none
      | c' :: u =>
        if c' = quote then
          nameAfterQuote u
            (Nat.lt_trans (length_lt_of_skipSpace h') (length_lt_of_skipSpace h))
        else none
    else none
where
  /-- The name after its opening quote, and the colon. -/
  nameAfterQuote (t : List UInt8) (ht : t.length < s.length) : Option (Parsed String s) :=
    match readText t with
    | none => none
    | some name =>
      match h : skipSpace name.rest with
      | [] => none
      | c :: u =>
        if c = colon then
          some
            { value := name.value
              rest := u
              rest_lt := by
                have := length_lt_of_skipSpace h
                have := name.rest_lt
                omega }
        else none

/-! ## Values, elements and members -/

mutual

/-- The next value. -/
def readValue (s : List UInt8) : Option (Parsed Value s) :=
  match h : skipSpace s with
  | [] => none
  | c :: t =>
    have ht : t.length < s.length := length_lt_of_skipSpace h
    have hc : (c :: t).length ≤ s.length := h ▸ length_skipSpace_le s
    if c = quote then
      (readText t).map fun p => (p.map .text).widen (Nat.le_of_lt ht)
    else if c = openBracket then
      (readElements true t).map fun p => (p.map fun _ => .nested).widen (Nat.le_of_lt ht)
    else if c = openBrace then
      (readMembers true t).map fun p => (p.map fun _ => .nested).widen (Nat.le_of_lt ht)
    else
      (readBare (c :: t)).map fun p => (p.map .bare).widen hc
termination_by 2 * s.length
decreasing_by all_goals omega

/-- What is left of an array, up to its closing bracket; `spare` grants one element that no comma
precedes. -/
def readElements (spare : Bool) (s : List UInt8) : Option (Parsed Unit s) :=
  match h : skipSpace s with
  | [] => none
  | c :: t =>
    have ht : t.length < s.length := length_lt_of_skipSpace h
    have hc : (c :: t).length ≤ s.length := h ▸ length_skipSpace_le s
    if c = closeBracket then
      some { value := (), rest := t, rest_lt := ht }
    else if c = comma then
      match readValue t with
      | none => none
      | some element =>
        have hr : element.rest.length < s.length := Nat.lt_trans element.rest_lt ht
        (readElements spare element.rest).map (·.widen (Nat.le_of_lt hr))
    else if spare then
      match readValue (c :: t) with
      | none => none
      | some element =>
        have hr : element.rest.length < s.length := Nat.lt_of_lt_of_le element.rest_lt hc
        (readElements false element.rest).map (·.widen (Nat.le_of_lt hr))
    else none
termination_by 2 * s.length + 1
decreasing_by all_goals omega

/-- What is left of an object, up to its closing brace; `first` says that no member came before. -/
def readMembers (first : Bool) (s : List UInt8) : Option (Parsed (List Member) s) :=
  match h : skipSpace s with
  | [] => none
  | c :: t =>
    if c = closeBrace then
      some { value := [], rest := t, rest_lt := length_lt_of_skipSpace h }
    else
      match readName first s with
      | none => none
      | some name =>
        have hn : name.rest.length < s.length := name.rest_lt
        match readValue name.rest with
        | none => none
        | some value =>
          have hv : value.rest.length < s.length := Nat.lt_trans value.rest_lt hn
          (readMembers false value.rest).map fun others =>
            (others.map ({ name := name.value, value := value.value } :: ·)).widen
              (Nat.le_of_lt hv)
termination_by 2 * s.length + 1
decreasing_by all_goals omega

end

/-- The members of the object that a whole document consists of, white space around it apart. -/
def readDocument (s : List UInt8) : Option (List Member) :=
  match skipSpace s with
  | [] => none
  | c :: t =>
    if c = openBrace then
      (readMembers true t).bind fun p => if skipSpace p.rest = [] then some p.value else none
    else none

end PeerBeacon.Json
