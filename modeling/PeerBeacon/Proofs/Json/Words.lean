import PeerBeacon.Proofs.Json.Outcome

/-!
# Numbers, truth values and `null`

A value that is neither a string nor an array nor an object is a word without white space and
delimiters in it.  It is read up to the next delimiter, with the white space before that
(`readValue_word`).  Dropping the white space gives back the word, and the word means what it says:
an integer of any length is compared with the limits of 16 bits as a whole
(`optional?_int16_kept`, `optional?_bool_kept`, `optional?_kept_null`).
-/

namespace PeerBeacon.Json

/-! ## Bare words -/

/-- A byte that can be in a number, a truth value or `null`. -/
def isWordByte (c : UInt8) : Bool :=
  !isSpace c && !isDelimiter c && c != quote && c != openBracket && c != openBrace

/-- A character that can be in a number, a truth value or `null`. -/
def isWordChar (c : Char) : Bool :=
  decide (c.toNat < 0x80) && isWordByte (UInt8.ofNat c.toNat)

theorem isWordByte_iff {c : UInt8} :
    isWordByte c = true ↔ ¬isSpace c ∧ isDelimiter c = false ∧
      c ≠ quote ∧ c ≠ openBracket ∧ c ≠ openBrace := by
  simp [isWordByte, and_assoc]

theorem isDelimiter_of_isWordByte {c : UInt8} (h : isWordByte c) : isDelimiter c = false :=
  (isWordByte_iff.mp h).2.1

theorem not_isSpace_of_isWordByte {c : UInt8} (h : isWordByte c) : ¬isSpace c :=
  (isWordByte_iff.mp h).1

/-- A number, a truth value or `null`. -/
structure IsWord (word : List UInt8) : Prop where
  ne_nil : word ≠ []
  isWordByte : ∀ c ∈ word, isWordByte c

/-- A bare value runs to the delimiter. -/
theorem outcome_readBare {word tail : List UInt8} (hword : IsWord word) (after : Gap)
    (htail : Closed tail) :
    outcome (readBare (word ++ (after.bytes ++ tail))) = some (word ++ after.bytes, tail) := by
  obtain ⟨d, t, rfl, hd⟩ := htail
  have hbefore : ∀ c ∈ word ++ after.bytes, isDelimiter c = false := by
    intro c hc
    rcases List.mem_append.mp hc with hc | hc
    · exact isDelimiter_of_isWordByte (hword.isWordByte c hc)
    · exact eq_false_of_ne_true fun h => not_isSpace_of_isDelimiter h (isSpace_of_mem_gap hc)
  rw [← List.append_assoc]
  have hrest : (word ++ after.bytes ++ d :: t).dropWhile (!isDelimiter ·) = d :: t := by
    rw [List.dropWhile_append_of_pos fun c hc => by rw [hbefore c hc]; rfl]
    exact List.dropWhile_cons_of_neg (by simp [hd])
  have htaken : (word ++ after.bytes ++ d :: t).takeWhile (!isDelimiter ·) =
      word ++ after.bytes := by
    rw [List.takeWhile_append_of_pos fun c hc => by rw [hbefore c hc]; rfl]
    rw [List.takeWhile_cons_of_neg (by simp [hd]), List.append_nil]
  have hshorter : (d :: t).length < (word ++ after.bytes ++ d :: t).length := by
    have := List.length_pos_of_ne_nil hword.ne_nil
    simp only [List.length_append]
    omega
  unfold readBare
  simp only [hrest, htaken]
  rw [dif_pos ⟨List.cons_ne_nil d t, hshorter⟩]
  rfl

theorem readValue_word {word tail s : List UInt8} (hword : IsWord word) (after : Gap)
    (htail : Closed tail) (hs : skipSpace s = skipSpace (word ++ (after.bytes ++ tail))) :
    outcome (readValue s) = some (.bare (word ++ after.bytes), tail) := by
  obtain ⟨c, w, rfl⟩ := List.exists_cons_of_ne_nil hword.ne_nil
  obtain ⟨hspace, -, hquote, hbracket, hbrace⟩ :=
    isWordByte_iff.mp (hword.isWordByte c List.mem_cons_self)
  have hbare := outcome_readBare hword after htail
  rw [List.cons_append] at hs hbare
  rw [skipSpace_of_not_isSpace _ hspace] at hs
  rw [outcome_readValue hs, if_neg hquote, if_neg hbracket, if_neg hbrace, hbare]
  rfl

theorem isWord_encode {s : List Char} (hs : s ≠ []) (h : ∀ c ∈ s, isWordChar c) :
    IsWord (encode s) := by
  constructor
  · obtain ⟨c, t, rfl⟩ := List.exists_cons_of_ne_nil hs
    exact List.append_ne_nil_of_left_ne_nil String.utf8EncodeChar_ne_nil _
  · intro b hb
    obtain ⟨c, hc, hb⟩ := List.mem_flatMap.mp hb
    have hchar := h c hc
    rw [isWordChar, Bool.and_eq_true, decide_eq_true_eq] at hchar
    rw [utf8EncodeChar_of_ascii hchar.1] at hb
    exact (List.mem_singleton.mp hb) ▸ hchar.2

/-- What holds of the ten digits holds of the byte of a digit. -/
theorem digit_cases {p : Nat → UInt8 → Prop}
    (h : ∀ m < 58, 48 ≤ m → p m (UInt8.ofNat m)) {c : Char} (hc : c.isDigit) :
    p c.toNat (UInt8.ofNat c.toNat) := by
  obtain ⟨hlow, hhigh⟩ := Char.isDigit_iff_toNat.mp hc
  exact h c.toNat (Nat.lt_succ_of_le hhigh) hlow

theorem isWordChar_digit (d : Digit) : isWordChar d.char := by
  revert d
  decide

theorem isWordChar_of_mem_toDigits {n : Nat} {c : Char} (h : c ∈ Nat.toDigits 10 n) :
    isWordChar c := by
  rw [isWordChar, Bool.and_eq_true, decide_eq_true_eq]
  exact digit_cases (p := fun m b => m < 0x80 ∧ isWordByte b) (by decide)
    (isDigit_of_mem_toDigits c h)

theorem isWordChar_of_mem_exponent {e : Exponent} {c : Char} (h : c ∈ e.written) :
    isWordChar c := by
  obtain ⟨upper, sign, first, more⟩ := e
  simp only [Exponent.written, List.mem_cons, List.mem_append, List.mem_map] at h
  rcases h with rfl | hsign | rfl | ⟨d, -, rfl⟩
  · cases upper <;> rfl
  · rcases sign with _ | _ | _
    · cases hsign
    · exact List.mem_singleton.mp hsign ▸ rfl
    · exact List.mem_singleton.mp hsign ▸ rfl
  · exact isWordChar_digit first
  · exact isWordChar_digit d

theorem isWordChar_of_mem_number {n : Number} {c : Char} (h : c ∈ n.written) : isWordChar c := by
  obtain ⟨negative, whole, fraction, exponent⟩ := n
  simp only [Number.written, List.mem_append] at h
  rcases h with ((hsign | hwhole) | hfraction) | hexponent
  · split at hsign
    · exact List.mem_singleton.mp hsign ▸ rfl
    · cases hsign
  · exact isWordChar_of_mem_toDigits hwhole
  · split at hfraction
    · cases hfraction
    · rcases List.mem_cons.mp hfraction with rfl | hdigit
      · decide
      · obtain ⟨d, -, rfl⟩ := List.mem_map.mp hdigit
        exact isWordChar_digit d
  · cases exponent with
    | none => cases hexponent
    | some e => exact isWordChar_of_mem_exponent hexponent

theorem isWord_number (n : Number) : IsWord (encode n.written) := by
  refine isWord_encode (fun hnil => ?_) fun c hc => isWordChar_of_mem_number hc
  have hdigits : Nat.toDigits 10 n.whole = [] := by
    simp only [Number.written, List.append_eq_nil_iff] at hnil
    exact hnil.1.1.2
  exact Nat.toDigits_ne_nil hdigits

theorem isWord_null : IsWord (ascii "null") :=
  ⟨by decide, List.all_eq_true.mp (by decide)⟩

theorem isWord_flag (b : Bool) : IsWord (ascii (if b then "true" else "false")) := by
  cases b <;> exact ⟨by decide, List.all_eq_true.mp (by decide)⟩

/-! ## What words mean -/

theorem trimSpace_append_gap {word : List UInt8} (h : IsWord word) (after : Gap) :
    trimSpace (word ++ after.bytes) = word := by
  have hafter : ∀ c ∈ after.bytes.reverse, isSpace c := fun c hc =>
    isSpace_of_mem_gap (List.mem_reverse.mp hc)
  have hword : word.reverse.dropWhile isSpace = word.reverse := by
    obtain ⟨c, t, ht⟩ := List.exists_cons_of_ne_nil (List.reverse_ne_nil_iff.mpr h.ne_nil)
    have hc : c ∈ word := List.mem_reverse.mp (ht ▸ List.mem_cons_self)
    rw [ht, List.dropWhile_cons_of_neg (not_isSpace_of_isWordByte (h.isWordByte c hc))]
  rw [trimSpace, List.reverse_append, List.dropWhile_append_of_pos hafter, hword,
    List.reverse_reverse]

/-- No number but zero begins with the digit zero. -/
theorem toDigits_eq_cons {n : Nat} (h : 0 < n) : ∃ c t, Nat.toDigits 10 n = c :: t ∧ c ≠ '0' := by
  induction n using Nat.strongRecOn with
  | ind n ih =>
    rw [Nat.toDigits_eq_if (by decide)]
    by_cases hn : n < 10
    · have hdigit : ∀ m < 10, 0 < m → Nat.digitChar m ≠ '0' := by decide
      rw [if_pos hn]
      exact ⟨Nat.digitChar n, [], rfl, hdigit n hn h⟩
    · obtain ⟨c, t, ht, hc⟩ := ih (n / 10) (by omega) (by omega)
      rw [if_neg hn, ht]
      exact ⟨c, t ++ [Nat.digitChar (n % 10)], rfl, hc⟩

/-- Reading digits byte by byte gives the number that they stand for. -/
theorem foldlM_digit? {s : List Char} (h : ∀ c ∈ s, c.isDigit) (n : Nat) :
    (s.map fun c => UInt8.ofNat c.toNat).foldlM (fun n c => (digit? c).map (10 * n + ·)) n =
      some (Nat.ofDigitChars 10 s n) := by
  induction s generalizing n with
  | nil => rfl
  | cons c s ih =>
    have hdigit : digit? (UInt8.ofNat c.toNat) = some (c.toNat - 48) :=
      digit_cases (p := fun m b => digit? b = some (m - 48)) (by decide) (h c List.mem_cons_self)
    rw [List.map_cons, List.foldlM_cons, hdigit]
    exact ih (fun d hd => h d (List.mem_cons_of_mem c hd)) _

theorem natural?_toDigits (n : Nat) : natural? (encode (Nat.toDigits 10 n)) = some n := by
  rcases Nat.eq_zero_or_pos n with rfl | hn
  · rfl
  · obtain ⟨c, t, ht, hc⟩ := toDigits_eq_cons hn
    have hdigits : ∀ d ∈ c :: t, d.isDigit := ht ▸ isDigit_of_mem_toDigits
    have hzero : UInt8.ofNat c.toNat ≠ 0x30 := by
      have hne : c.toNat ≠ '0'.toNat := fun h => hc (Char.toNat_inj.mp h)
      have hbyte : c.toNat ≠ 48 → UInt8.ofNat c.toNat ≠ 0x30 :=
        digit_cases (p := fun m b => m ≠ 48 → b ≠ 0x30) (by decide) (hdigits c List.mem_cons_self)
      exact hbyte hne
    have hread := foldlM_digit? hdigits 0
    rw [List.map_cons, ← ht, Nat.ofDigitChars_ten_toDigits] at hread
    rw [ht, encode_digits hdigits, List.map_cons, natural?, if_neg hzero, hread]

/-- The integer that is written as a sign, if any, and a whole part. -/
def signed (negative : Bool) (whole : Nat) : Int :=
  if negative then -whole else whole

theorem integer?_number (negative : Bool) (whole : Nat) :
    integer? (encode (Number.written { negative, whole })) = some (signed negative whole) := by
  have hwritten : Number.written { negative, whole } =
      (if negative then ['-'] else []) ++ Nat.toDigits 10 whole := by
    simp only [Number.written, if_true, List.append_nil]
  rw [hwritten]
  cases negative with
  | true =>
    have hencode : encode (['-'] ++ Nat.toDigits 10 whole) =
        0x2D :: encode (Nat.toDigits 10 whole) := rfl
    rw [if_pos rfl, hencode, integer?, if_pos rfl, natural?_toDigits]
    rfl
  | false =>
    obtain ⟨c, t, ht⟩ := List.exists_cons_of_ne_nil (Nat.toDigits_ne_nil (b := 10) (n := whole))
    have hminus : UInt8.ofNat c.toNat ≠ 0x2D :=
      digit_cases (p := fun _ b => b ≠ 0x2D) (by decide)
        (isDigit_of_mem_toDigits (n := whole) c (ht ▸ List.mem_cons_self))
    have hnatural := natural?_toDigits whole
    rw [encode_digits isDigit_of_mem_toDigits, ht, List.map_cons] at hnatural
    rw [if_neg Bool.false_ne_true, List.nil_append, encode_digits isDigit_of_mem_toDigits, ht,
      List.map_cons, integer?, if_neg hminus, hnatural]
    rfl

/-! ## Values that may be `null` -/

section Optional

variable {α : Type u} (read : List UInt8 → Option α)

theorem optional?_word {word : List UInt8} (h : IsWord word) (hnull : word ≠ ascii "null")
    (after : Gap) : optional? read (.bare (word ++ after.bytes)) = (read word).map some := by
  rw [optional?, trimSpace_append_gap h]
  exact if_neg hnull

theorem optional?_kept_null (after : Gap) : optional? read (Tree.null.kept after) = some none := by
  rw [Tree.kept, Tree.bytes, optional?, trimSpace_append_gap isWord_null]
  exact if_pos rfl

end Optional

/-- An integer without fraction and exponent is read if 16 bits hold it. -/
theorem optional?_int16?_kept (negative : Bool) (whole : Nat) (after : Gap) :
    optional? int16? ((Tree.number { negative, whole }).kept after) =
      if -32768 ≤ signed negative whole ∧ signed negative whole ≤ 32767 then
        some (some (Int16.ofInt (signed negative whole)))
      else none := by
  have hinteger := integer?_number negative whole
  have hnull : encode (Number.written { negative, whole }) ≠ ascii "null" := by
    intro h
    rw [h] at hinteger
    cases hinteger
  rw [Tree.kept, Tree.bytes, optional?_word int16? (isWord_number _) hnull, int16?, hinteger]
  dsimp only [Option.bind_some]
  split <;> rfl

theorem optional?_bool?_kept (b : Bool) (after : Gap) :
    optional? bool? ((Tree.flag b).kept after) = some (some b) := by
  have hnull : ascii (if b then "true" else "false") ≠ ascii "null" := by cases b <;> decide
  have hread : bool? (ascii (if b then "true" else "false")) = some b := by cases b <;> decide
  rw [Tree.kept, Tree.bytes, optional?_word bool? (isWord_flag b) hnull, hread]
  rfl

end PeerBeacon.Json
