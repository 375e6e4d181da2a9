import PeerBeacon.Proofs.Json.Grammar

/-!
# What the readers return

The results of the readers carry a proof that the rest is shorter than the input, which is in the
way of rewriting the input.  Here the readers are described by what they return without that proof,
one equation for each way in which the input can open (`outcome_readValue` and its siblings).

White space in front of a value makes no difference, so that only `skipSpace` of the input occurs in
these equations.  A string is read up to its closing quote, whatever escapes it contains
(`outcome_readText_raw`).
-/

namespace PeerBeacon.Json

/-! ## The readers by their outcomes -/

/-- What was read and what is left. -/
def outcome {α : Type u} {s : List UInt8} (p : Option (Parsed α s)) : Option (α × List UInt8) :=
  p.map fun p => (p.value, p.rest)

theorem outcome_map_widen {α : Type u} {β : Type v} {s t : List UInt8} (p : Option (Parsed α s))
    (f : α → β) (h : s.length ≤ t.length) :
    outcome (p.map fun p => (p.map f).widen h) = (outcome p).map (Prod.map f id) := by
  cases p <;> rfl

theorem outcome_widen {α : Type u} {s t : List UInt8} (p : Option (Parsed α s))
    (h : s.length ≤ t.length) : outcome (p.map (·.widen h)) = outcome p := by
  cases p <;> rfl

theorem outcome_readText {s raw rest : List UInt8} (h : splitAtQuote s = some (raw, rest)) :
    outcome (readText s) = (String.fromUTF8? ⟨raw.toArray⟩).map fun text => (text, rest) := by
  unfold readText
  split
  case _ h' => simp [h] at h'
  case _ raw' rest' h' =>
    obtain ⟨rfl, rfl⟩ := Prod.mk.inj (Option.some.inj (h.symm.trans h'))
    cases String.fromUTF8? ⟨raw.toArray⟩ <;> rfl

theorem outcome_readValue {s t : List UInt8} {c : UInt8} (h : skipSpace s = c :: t) :
    outcome (readValue s) =
      if c = quote then (outcome (readText t)).map (Prod.map .text id)
      else if c = openBracket then
        (outcome (readElements true t)).map (Prod.map (fun _ => .nested) id)
      else if c = openBrace then
        (outcome (readMembers true t)).map (Prod.map (fun _ => .nested) id)
      else (outcome (readBare (c :: t))).map (Prod.map .bare id) := by
  rw [readValue]
  split
  case _ h' => simp [h] at h'
  case _ c' t' h' =>
    obtain ⟨rfl, rfl⟩ := List.cons.inj (h.symm.trans h')
    dsimp only
    split_ifs <;> exact outcome_map_widen _ _ _

theorem outcome_readElements {s t : List UInt8} {c : UInt8} (spare : Bool)
    (h : skipSpace s = c :: t) :
    outcome (readElements spare s) =
      if c = closeBracket then some ((), t)
      else if c = comma then
        (outcome (readValue t)).bind fun (_, rest) => outcome (readElements spare rest)
      else if spare then
        (outcome (readValue (c :: t))).bind fun (_, rest) => outcome (readElements false rest)
      else none := by
  rw [readElements]
  split
  case _ h' => simp [h] at h'
  case _ c' t' h' =>
    obtain ⟨rfl, rfl⟩ := List.cons.inj (h.symm.trans h')
    dsimp only
    split_ifs
    · rfl
    · cases readValue t with
      | none => rfl
      | some element => exact outcome_widen _ _
    · cases readValue (c :: t) with
      | none => rfl
      | some element => exact outcome_widen _ _
    · rfl

theorem outcome_readMembers {s t : List UInt8} {c : UInt8} (first : Bool)
    (h : skipSpace s = c :: t) :
    outcome (readMembers first s) =
      if c = closeBrace then some ([], t)
      else
        (outcome (readName first s)).bind fun (name, rest) =>
          (outcome (readValue rest)).bind fun (value, rest) =>
            (outcome (readMembers false rest)).map (Prod.map ({ name, value } :: ·) id) := by
  rw [readMembers]
  split
  case _ h' => simp [h] at h'
  case _ c' t' h' =>
    obtain ⟨rfl, rfl⟩ := List.cons.inj (h.symm.trans h')
    dsimp only
    split_ifs
    · rfl
    · cases readName first s with
      | none => rfl
      | some name =>
        dsimp only [outcome, Option.map_some, Option.bind_some]
        cases readValue name.rest with
        | none => rfl
        | some value => exact outcome_map_widen _ _ _

theorem outcome_nameAfterQuote {s t u rest : List UInt8} {name : String} (ht : t.length < s.length)
    (hname : outcome (readText t) = some (name, rest)) (hcolon : skipSpace rest = colon :: u) :
    outcome (readName.nameAfterQuote s t ht) = some (name, u) := by
  obtain ⟨p, hp, heq⟩ := Option.map_eq_some_iff.mp hname
  obtain ⟨rfl, rfl⟩ := Prod.mk.inj heq
  unfold readName.nameAfterQuote
  rw [hp]
  dsimp only
  split
  case _ h' => simp [hcolon] at h'
  case _ c' u' h' =>
    obtain ⟨rfl, rfl⟩ := List.cons.inj (hcolon.symm.trans h')
    rfl

theorem outcome_readName_true {s t u rest : List UInt8} {name : String}
    (hquote : skipSpace s = quote :: t) (hname : outcome (readText t) = some (name, rest))
    (hcolon : skipSpace rest = colon :: u) : outcome (readName true s) = some (name, u) := by
  unfold readName
  split
  case _ h' => simp [hquote] at h'
  case _ c' t' h' =>
    obtain ⟨rfl, rfl⟩ := List.cons.inj (hquote.symm.trans h')
    rw [if_pos rfl, if_pos rfl]
    exact outcome_nameAfterQuote _ hname hcolon

theorem outcome_readName_false {s r t u rest : List UInt8} {name : String}
    (hcomma : skipSpace s = comma :: r) (hquote : skipSpace r = quote :: t)
    (hname : outcome (readText t) = some (name, rest)) (hcolon : skipSpace rest = colon :: u) :
    outcome (readName false s) = some (name, u) := by
  unfold readName
  split
  case _ h' => simp [hcomma] at h'
  case _ c' r' h' =>
    obtain ⟨rfl, rfl⟩ := List.cons.inj (hcomma.symm.trans h')
    rw [if_neg Bool.false_ne_true, if_pos rfl]
    split
    case _ h'' => simp [hquote] at h''
    case _ c'' t' h'' =>
      obtain ⟨rfl, rfl⟩ := List.cons.inj (hquote.symm.trans h'')
      rw [if_pos rfl]
      exact outcome_nameAfterQuote _ hname hcolon

/-! ## White space and delimiters -/

theorem isSpace_of_mem_gap {g : Gap} {c : UInt8} (h : c ∈ g.bytes) : isSpace c := by
  obtain ⟨b, -, rfl⟩ := List.mem_map.mp h
  cases b <;> rfl

theorem skipSpace_gap (g : Gap) (s : List UInt8) : skipSpace (g.bytes ++ s) = skipSpace s :=
  List.dropWhile_append_of_pos fun _ h => isSpace_of_mem_gap h

theorem skipSpace_of_not_isSpace {c : UInt8} (s : List UInt8) (h : ¬isSpace c) :
    skipSpace (c :: s) = c :: s :=
  List.dropWhile_cons_of_neg h

/-- What a value can be followed by: a delimiter comes next. -/
def Closed (tail : List UInt8) : Prop :=
  ∃ c t, tail = c :: t ∧ isDelimiter c

theorem not_isSpace_of_isDelimiter {c : UInt8} (h : isDelimiter c) : ¬isSpace c := by
  simp only [isDelimiter, Bool.or_eq_true, beq_iff_eq] at h
  rcases h with (rfl | rfl) | rfl <;> decide

theorem skipSpace_closed {tail : List UInt8} (h : Closed tail) : skipSpace tail = tail := by
  obtain ⟨c, t, rfl, hc⟩ := h
  exact skipSpace_of_not_isSpace t (not_isSpace_of_isDelimiter hc)

/-! ## Strings -/

theorem splitAtQuote_quote (s : List UInt8) : splitAtQuote (quote :: s) = some ([], s) := by
  rw [splitAtQuote.eq_def]
  exact if_pos rfl

theorem splitAtQuote_backslash (d : UInt8) (s : List UInt8) :
    splitAtQuote (backslash :: d :: s) =
      (splitAtQuote s).map fun (raw, rest) => (backslash :: d :: raw, rest) := by
  rw [splitAtQuote.eq_def]
  rfl

theorem splitAtQuote_append {bs : List UInt8} (h : ∀ b ∈ bs, b ≠ quote ∧ b ≠ backslash)
    (s : List UInt8) :
    splitAtQuote (bs ++ s) = (splitAtQuote s).map fun (raw, rest) => (bs ++ raw, rest) := by
  induction bs with
  | nil => exact Option.map_id'.symm
  | cons b bs ih =>
    obtain ⟨hquote, hbackslash⟩ := h b List.mem_cons_self
    rw [List.cons_append, splitAtQuote.eq_def]
    dsimp only
    rw [if_neg hquote, if_neg hbackslash, ih fun c hc => h c (List.mem_cons_of_mem b hc),
      Option.map_map]
    rfl

/-- The bytes of a character that is neither a quote nor a backslash are neither of the two. -/
theorem unquoted_of_mem {c : Char} (h : c ≠ '"' ∧ c ≠ '\\') {b : UInt8}
    (hb : b ∈ String.utf8EncodeChar c) : b ≠ quote ∧ b ≠ backslash := by
  have hne : ∀ d : Char, d.toNat < 0x80 → c ≠ d → b.toNat ≠ d.toNat := by
    intro d hd hcd hbd
    rcases mem_utf8EncodeChar hb with heq | hhigh
    · exact hcd (Char.toNat_inj.mp (heq.symm.trans hbd))
    · omega
  constructor
  · rintro rfl
    exact hne '"' (by decide) h.1 rfl
  · rintro rfl
    exact hne '\\' (by decide) h.2 rfl

/-- A part of a string does not end it. -/
theorem splitAtQuote_piece (p : Piece) (s : List UInt8) :
    splitAtQuote (encode p.written ++ s) =
      (splitAtQuote s).map fun (raw, rest) => (encode p.written ++ raw, rest) := by
  have hplain : ∀ cs : List Char, (∀ c ∈ cs, c ≠ '"' ∧ c ≠ '\\') →
      splitAtQuote (encode cs ++ s) =
        (splitAtQuote s).map fun (raw, rest) => (encode cs ++ raw, rest) := fun cs hcs =>
    splitAtQuote_append (fun b hb => by
      obtain ⟨c, hc, hb⟩ := List.mem_flatMap.mp hb
      exact unquoted_of_mem (hcs c hc) hb) s
  have hbackslash : ∀ d : Char, d.toNat < 0x80 → ∀ cs : List Char, encode ('\\' :: d :: cs) =
      backslash :: UInt8.ofNat d.toNat :: encode cs := by
    intro d hd cs
    rw [encode_cons, encode_cons, utf8EncodeChar_of_ascii hd]
    rfl
  cases p with
  | plain c _ unquoted => exact hplain [c] fun d hd => (List.mem_singleton.mp hd) ▸ unquoted
  | short letter known =>
    have hascii : ∀ c ∈ "\"\\/bfnrt".toList, c.toNat < 0x80 :=
      List.all_iff_forall_prop.mp (by decide)
    rw [Piece.written, hbackslash letter (hascii letter known)]
    exact splitAtQuote_backslash _ s
  | unicode a b c d =>
    have hhex : ∀ e : HexDigit, e.char ≠ '"' ∧ e.char ≠ '\\' := by
      have hdigit : ∀ e ∈ "0123456789abcdefABCDEF".toList, e ≠ '"' ∧ e ≠ '\\' :=
        List.all_iff_forall_prop.mp (by decide)
      exact fun e => hdigit e.char e.isHex
    have hdigits := hplain [a.char, b.char, c.char, d.char] fun e he => by
      simp only [List.mem_cons, List.not_mem_nil, or_false] at he
      rcases he with rfl | rfl | rfl | rfl <;> exact hhex _
    rw [Piece.written, hbackslash 'u' (by decide), List.cons_append, List.cons_append,
      splitAtQuote_backslash, hdigits, Option.map_map]
    rfl

theorem splitAtQuote_raw (t : Text) (rest : List UInt8) :
    splitAtQuote (encode t.raw ++ quote :: rest) = some (encode t.raw, rest) := by
  induction t with
  | nil => exact splitAtQuote_quote rest
  | cons p t ih =>
    have hraw : Text.raw (p :: t) = p.written ++ Text.raw t := rfl
    rw [hraw, encode_append, List.append_assoc, splitAtQuote_piece, ih]
    rfl

theorem outcome_readText_raw (t : Text) (rest : List UInt8) :
    outcome (readText (encode t.raw ++ quote :: rest)) = some (String.ofList t.raw, rest) := by
  rw [outcome_readText (splitAtQuote_raw t rest), fromUTF8?_encode]
  rfl

end PeerBeacon.Json
