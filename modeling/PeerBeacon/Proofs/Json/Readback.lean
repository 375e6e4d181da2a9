import PeerBeacon.Proofs.Json.Reading
import PeerBeacon.Proofs.Json.Written

/-!
# Reading back what was written

The writer of flat objects and the reader of objects were made for different ends: what a node
writes is read by others, and what it reads is written by others.  Still the two fit.  What the
writer writes is a JSON text (`exists_document`), and so the reader takes it apart into the members
that were written (`readDocument_written`): no string can imitate a quote, a comma or a brace.

The reader leaves strings as they are written.  The escapes can be undone (`unescape_escaped`), and
then a written object gives back exactly the members that went into it (`readScalars_written`).  So
an object determines its members (`writtenObject_injective`).
-/

namespace PeerBeacon.Json

/-! ## Undoing escapes -/

/-- The value of a hexadecimal digit in upper case. -/
def hexValue (c : Char) : Nat :=
  if c.toNat < 'A'.toNat then c.toNat - '0'.toNat else c.toNat - 'A'.toNat + 10

/-- What a letter after a backslash stands for; quote and backslash stand for themselves. -/
def lettered (c : Char) : Char :=
  if c = 'b' then '\x08'
  else if c = 't' then '\t'
  else if c = 'n' then '\n'
  else if c = 'f' then '\x0c'
  else if c = 'r' then '\r'
  else c

/-- The characters that some escaped characters stand for. -/
def unescape : List Char → List Char
  | '\\' :: 'u' :: a :: b :: c :: d :: s =>
    Char.ofNat (4096 * hexValue a + 256 * hexValue b + 16 * hexValue c + hexValue d) :: unescape s
  | '\\' :: c :: s => lettered c :: unescape s
  | c :: s => c :: unescape s
  | [] => []

theorem hexValue_upperHexDigit : ∀ n < 16, hexValue (upperHexDigit n) = n := by
  decide

theorem unescape_cons {c : Char} (h : c ≠ '\\') (s : List Char) :
    unescape (c :: s) = c :: unescape s := by
  rw [unescape.eq_def]
  split <;> simp_all

theorem unescape_escape (c : Char) (s : List Char) :
    unescape (escape c ++ s) = c :: unescape s := by
  unfold escape
  split_ifs with hquote hbackslash hbackspace htab hfeed hform hreturn hcontrol
  · subst hquote
    rfl
  · subst hbackslash
    rfl
  · subst hbackspace
    rfl
  · subst htab
    rfl
  · subst hfeed
    rfl
  · subst hform
    rfl
  · subst hreturn
    rfl
  · have hhigh := hexValue_upperHexDigit (c.toNat / 16) (by omega)
    have hlow := hexValue_upperHexDigit (c.toNat % 16) (by omega)
    have hnumber : 4096 * hexValue '0' + 256 * hexValue '0' + 16 * (c.toNat / 16) + c.toNat % 16 =
        c.toNat := by
      have hzero : hexValue '0' = 0 := by decide
      rw [hzero]
      omega
    simp only [List.cons_append, List.nil_append, unescape, hhigh, hlow, hnumber, Char.ofNat_toNat]
  · exact unescape_cons hbackslash s

/-- **Escapes can be undone.** -/
theorem unescape_escaped (s : List Char) : unescape (s.flatMap escape) = s := by
  induction s with
  | nil => rfl
  | cons c s ih => rw [List.flatMap_cons, unescape_escape, ih]

/-! ## A written object is a JSON text -/

theorem exists_piece (c : Char) : ∃ p : Piece, p.written = escape c := by
  have hhex : ∀ n < 16, upperHexDigit n ∈ "0123456789abcdefABCDEF".toList := by decide
  unfold escape
  split_ifs with hquote hbackslash hbackspace htab hfeed hform hreturn hcontrol
  · exact ⟨.short '"' (by decide), rfl⟩
  · exact ⟨.short '\\' (by decide), rfl⟩
  · exact ⟨.short 'b' (by decide), rfl⟩
  · exact ⟨.short 't' (by decide), rfl⟩
  · exact ⟨.short 'n' (by decide), rfl⟩
  · exact ⟨.short 'f' (by decide), rfl⟩
  · exact ⟨.short 'r' (by decide), rfl⟩
  · exact ⟨.unicode ⟨'0', by decide⟩ ⟨'0', by decide⟩ ⟨_, hhex (c.toNat / 16) (by omega)⟩
      ⟨_, hhex (c.toNat % 16) (by omega)⟩, rfl⟩
  · exact ⟨.plain c (Nat.le_of_not_lt hcontrol) ⟨hquote, hbackslash⟩, rfl⟩

theorem exists_text (s : List Char) : ∃ t : Text, t.raw = s.flatMap escape := by
  induction s with
  | nil => exact ⟨[], rfl⟩
  | cons c s ih =>
    obtain ⟨p, hp⟩ := exists_piece c
    obtain ⟨t, ht⟩ := ih
    refine ⟨p :: t, ?_⟩
    rw [List.flatMap_cons, ← hp, ← ht]
    rfl

theorem exists_number (i : Int) : ∃ negative whole,
    decimal i = Number.written { negative, whole } ∧ signed negative whole = i := by
  cases i with
  | ofNat n => exact ⟨false, n, by simp [decimal, Number.written], rfl⟩
  | negSucc n => exact ⟨true, n + 1, by simp [decimal, Number.written], rfl⟩

theorem bytes_of_raw {t : Text} {s : String} (h : t.raw = s.toList.flatMap escape) :
    t.bytes = encode (quoted s) := by
  rw [Text.bytes, h, quoted, List.cons_append, encode_cons, encode_append]
  rfl

/-- What the reader keeps of a value that was written. -/
def Scalar.kept : Scalar → Value
  | .text s => .text (String.ofList (s.toList.flatMap escape))
  | .flag b => .bare (encode (Scalar.flag b).written)
  | .number i => .bare (encode (Scalar.number i).written)

/-- What the reader keeps of a member that was written. -/
def keptMember (m : String × Scalar) : Member where
  name := String.ofList (m.1.toList.flatMap escape)
  value := m.2.kept

theorem exists_tree (v : Scalar) :
    ∃ tree : Tree, tree.bytes = encode v.written ∧ tree.kept [] = v.kept := by
  cases v with
  | flag b =>
    have hbytes : (Tree.flag b).bytes = encode (Scalar.flag b).written := by cases b <;> decide
    refine ⟨.flag b, hbytes, ?_⟩
    rw [Tree.kept, hbytes]
    exact congrArg Value.bare (List.append_nil _)
  | number i =>
    obtain ⟨negative, whole, hwritten, -⟩ := exists_number i
    have hbytes : (Tree.number { negative, whole }).bytes = encode (Scalar.number i).written := by
      rw [Tree.bytes, Scalar.written, hwritten]
    refine ⟨.number { negative, whole }, hbytes, ?_⟩
    rw [Tree.kept, hbytes]
    exact congrArg Value.bare (List.append_nil _)
  | text s =>
    obtain ⟨t, ht⟩ := exists_text s.toList
    refine ⟨.text t, ?_, ?_⟩
    · rw [Tree.bytes, bytes_of_raw ht, Scalar.written]
    · rw [Tree.kept, ht, Scalar.kept]

/-- A member in front of others, with the comma that it needs unless it is the first. -/
theorem exists_members_cons (m : String × Scalar) (others : Members) (first : Bool) :
    ∃ ms : Members,
      ms.bytes first = (if first then [] else [comma]) ++ (encode (writtenMember m) ++
        others.bytes false) ∧
      ms.kept = keptMember m :: others.kept := by
  obtain ⟨name, value⟩ := m
  obtain ⟨t, ht⟩ := exists_text name.toList
  obtain ⟨tree, hbytes, hkept⟩ := exists_tree value
  refine ⟨.cons [] t [] [] tree [] others, ?_, ?_⟩
  · rw [Members.bytes, bytes_of_raw ht, hbytes, writtenMember, encode_append, encode_cons,
      List.append_assoc]
    rfl
  · rw [Members.kept, ht, hkept, keptMember]

theorem exists_members (ms : List (String × Scalar)) :
    ∃ others : Members, others.bytes false = encode (ms.flatMap (',' :: writtenMember ·)) ∧
      others.kept = ms.map keptMember := by
  induction ms with
  | nil => exact ⟨.nil, by rw [Members.bytes]; rfl, by rw [Members.kept]; rfl⟩
  | cons m ms ih =>
    obtain ⟨others, hbytes, hkept⟩ := ih
    obtain ⟨all, hall, hallKept⟩ := exists_members_cons m others false
    refine ⟨all, ?_, ?_⟩
    · rw [hall, hbytes, List.flatMap_cons, List.cons_append, encode_cons, encode_append]
      rfl
    · rw [hallKept, hkept, List.map_cons]

/-- **A written object is a JSON text.**  It is the text of a document whose members are those that
were written. -/
theorem exists_document (ms : List (String × Scalar)) :
    ∃ d : Document, d.bytes = encode (writtenObject ms) ∧ d.members.kept = ms.map keptMember := by
  have hdocument : ∀ {members : Members} {inner : List Char},
      members.bytes true = encode inner →
        (Document.mk [] [] members []).bytes = encode ('{' :: (inner ++ ['}'])) := by
    intro members inner h
    rw [Document.bytes, Tree.bytes, h, encode_cons, encode_append]
    exact List.append_nil _
  cases ms with
  | nil =>
    refine ⟨⟨[], [], .nil, []⟩, hdocument ?_, ?_⟩
    · rw [Members.bytes]
      rfl
    · rw [Members.kept]
      rfl
  | cons m ms =>
    obtain ⟨others, hbytes, hkept⟩ := exists_members ms
    obtain ⟨all, hall, hallKept⟩ := exists_members_cons m others true
    refine ⟨⟨[], [], all, []⟩, ?_, ?_⟩
    · rw [writtenObject_cons]
      refine hdocument ?_
      rw [hall, hbytes, encode_append]
      rfl
    · rw [hallKept, hkept, List.map_cons]

/-- The reader takes a written object apart into the members that were written. -/
theorem readDocument_written (ms : List (String × Scalar)) :
    readDocument (encode (writtenObject ms)) = some (ms.map keptMember) := by
  obtain ⟨d, hbytes, hkept⟩ := exists_document ms
  rw [← hbytes, readDocument_bytes, hkept]

/-! ## Reading scalars -/

/-- What a value stands for, if it is a string, a truth value or an integer. -/
def Value.scalar? : Value → Option Scalar
  | .text raw => some (.text (String.ofList (unescape raw.toList)))
  | .bare bytes =>
    match bool? bytes with
    | some b => some (.flag b)
    | none => (integer? bytes).map .number
  | .nested => none

/-- What a member stands for. -/
def Member.scalar? (m : Member) : Option (String × Scalar) :=
  m.value.scalar?.map fun v => (String.ofList (unescape m.name.toList), v)

/-- The members of a flat object. -/
def readScalars (s : List UInt8) : Option (List (String × Scalar)) :=
  (readDocument s).bind fun ms => ms.mapM Member.scalar?

theorem ofList_unescape_escaped (s : String) :
    String.ofList (unescape (String.ofList (s.toList.flatMap escape)).toList) = s := by
  rw [String.toList_ofList, unescape_escaped, String.ofList_toList]

theorem integer?_decimal (i : Int) : integer? (encode (decimal i)) = some i := by
  obtain ⟨negative, whole, hwritten, hsigned⟩ := exists_number i
  rw [hwritten, integer?_number, hsigned]

theorem scalar?_kept (v : Scalar) : v.kept.scalar? = some v := by
  cases v with
  | flag b => cases b <;> decide
  | number i =>
    have hinteger := integer?_decimal i
    have hword : ∀ word, integer? (ascii word) = none → encode (decimal i) ≠ ascii word := by
      rintro word hnone heq
      rw [heq, hnone] at hinteger
      cases hinteger
    have hbool : bool? (encode (decimal i)) = none := by
      rw [bool?, if_neg (hword "true" (by decide)), if_neg (hword "false" (by decide))]
    rw [Scalar.kept, Scalar.written, Value.scalar?, hbool, hinteger]
    rfl
  | text s => rw [Scalar.kept, Value.scalar?, ofList_unescape_escaped]

theorem scalar?_keptMember (m : String × Scalar) : (keptMember m).scalar? = some m := by
  rw [Member.scalar?, keptMember, scalar?_kept, Option.map_some, ofList_unescape_escaped]

/-- **A written object can be read back**, whatever its names and strings are. -/
theorem readScalars_written (ms : List (String × Scalar)) :
    readScalars (encode (writtenObject ms)) = some ms := by
  rw [readScalars, readDocument_written, Option.bind_some]
  induction ms with
  | nil => rfl
  | cons m ms ih =>
    rw [List.map_cons, List.mapM_cons, scalar?_keptMember, ih]
    rfl

theorem writtenObject_injective :
    Function.Injective fun ms : List (String × Scalar) => encode (writtenObject ms) := by
  intro ms ns h
  have hread := congrArg readScalars h
  rwa [readScalars_written, readScalars_written, Option.some_inj] at hread

end PeerBeacon.Json
