import PeerBeacon.Proofs.Json.Words

/-!
# Every JSON text is read to its end

The reader is lenient, so that it is not clear at once that it reads what it ought to: a bare value
runs to the next delimiter whatever comes before, and what lies inside an array or object is skipped
without being kept.  Here the reader is put on the bytes of a tree, with anything after them.  A
value is read up to the white space after it, an array up to its closing bracket and an object up to
its closing brace (`readValue_tree`, `readElements_elements`, `readMembers_members`, by induction on
the tree).

The main statement is `readDocument_bytes`.
-/

namespace PeerBeacon.Json

/-! ## Trees -/

/-- Every value opens with a byte that neither separates nor ends anything. -/
theorem Tree.exists_bytes_eq_cons (v : Tree) :
    ∃ c t, v.bytes = c :: t ∧ ¬isSpace c ∧ ¬isDelimiter c := by
  have hword : ∀ {word}, IsWord word → ∃ c t, word = c :: t ∧ ¬isSpace c ∧ ¬isDelimiter c := by
    intro word h
    obtain ⟨c, t, rfl⟩ := List.exists_cons_of_ne_nil h.ne_nil
    have hc := h.isWordByte c List.mem_cons_self
    exact ⟨c, t, rfl, not_isSpace_of_isWordByte hc,
      ne_true_of_eq_false (isDelimiter_of_isWordByte hc)⟩
  cases v with
  | null => exact hword isWord_null
  | flag b => exact hword (isWord_flag b)
  | number n => exact hword (isWord_number n)
  | text t => exact ⟨quote, _, rfl, by decide, by decide⟩
  | array inner elements => exact ⟨openBracket, _, by rw [Tree.bytes], by decide, by decide⟩
  | object inner members => exact ⟨openBrace, _, by rw [Tree.bytes], by decide, by decide⟩

theorem Elements.bytes_cons_append (before : Gap) (value : Tree) (after : Gap) (others : Elements)
    (first : Bool) (s : List UInt8) :
    (Elements.cons before value after others).bytes first ++ s =
      (if first then [] else [comma]) ++
        (before.bytes ++ (value.bytes ++ (after.bytes ++ (others.bytes false ++ s)))) := by
  simp only [Elements.bytes, List.append_assoc]

theorem Members.bytes_cons_append (before : Gap) (name : Text) (beforeColon afterColon : Gap)
    (value : Tree) (after : Gap) (others : Members) (first : Bool) (s : List UInt8) :
    (Members.cons before name beforeColon afterColon value after others).bytes first ++ s =
      (if first then [] else [comma]) ++ (before.bytes ++ (name.bytes ++ (beforeColon.bytes ++
        colon :: (afterColon.bytes ++ (value.bytes ++ (after.bytes ++
          (others.bytes false ++ s))))))) := by
  simp only [Members.bytes, List.append_assoc, List.cons_append]

theorem Elements.closed (es : Elements) (tail : List UInt8) :
    Closed (es.bytes false ++ closeBracket :: tail) := by
  cases es with
  | nil => exact ⟨closeBracket, tail, by rw [Elements.bytes, List.nil_append], rfl⟩
  | cons before value after others => exact ⟨comma, _, by rw [Elements.bytes]; rfl, rfl⟩

theorem Members.closed (ms : Members) (tail : List UInt8) :
    Closed (ms.bytes false ++ closeBrace :: tail) := by
  cases ms with
  | nil => exact ⟨closeBrace, tail, by rw [Members.bytes, List.nil_append], rfl⟩
  | cons => exact ⟨comma, _, by rw [Members.bytes]; rfl, rfl⟩

/-- The name of a member is read up to the colon. -/
theorem readName_written (before : Gap) (name : Text) (beforeColon : Gap) (first : Bool)
    {s u : List UInt8}
    (hs : skipSpace s = skipSpace ((if first then [] else [comma]) ++
      (before.bytes ++ (name.bytes ++ (beforeColon.bytes ++ colon :: u))))) :
    (∃ c t, skipSpace s = c :: t ∧ c ≠ closeBrace) ∧
      outcome (readName first s) = some (String.ofList name.raw, u) := by
  have hquote : skipSpace (before.bytes ++ (name.bytes ++ (beforeColon.bytes ++ colon :: u))) =
      quote :: (encode name.raw ++ quote :: (beforeColon.bytes ++ colon :: u)) := by
    rw [skipSpace_gap, Text.bytes, List.cons_append, List.append_assoc, List.singleton_append,
      skipSpace_of_not_isSpace _ (by decide)]
  have hname := outcome_readText_raw name (beforeColon.bytes ++ colon :: u)
  have hcolon : skipSpace (beforeColon.bytes ++ colon :: u) = colon :: u := by
    rw [skipSpace_gap, skipSpace_of_not_isSpace _ (by decide)]
  cases first with
  | true =>
    rw [if_pos rfl, List.nil_append, hquote] at hs
    exact ⟨⟨_, _, hs, by decide⟩, outcome_readName_true hs hname hcolon⟩
  | false =>
    rw [if_neg Bool.false_ne_true, List.singleton_append,
      skipSpace_of_not_isSpace _ (by decide)] at hs
    exact ⟨⟨_, _, hs, by decide⟩, outcome_readName_false hs hquote hname hcolon⟩

mutual

/-- A value is read up to the white space after it. -/
theorem readValue_tree (v : Tree) (after : Gap) {tail s : List UInt8} (htail : Closed tail)
    (hs : skipSpace s = skipSpace (v.bytes ++ (after.bytes ++ tail))) :
    ∃ rest, outcome (readValue s) = some (v.kept after, rest) ∧ skipSpace rest = tail := by
  have hgap : skipSpace (after.bytes ++ tail) = tail :=
    (skipSpace_gap after tail).trans (skipSpace_closed htail)
  cases v with
  | null => exact ⟨tail, readValue_word isWord_null after htail hs, skipSpace_closed htail⟩
  | flag b => exact ⟨tail, readValue_word (isWord_flag b) after htail hs, skipSpace_closed htail⟩
  | number n =>
    exact ⟨tail, readValue_word (isWord_number n) after htail hs, skipSpace_closed htail⟩
  | text t =>
    refine ⟨after.bytes ++ tail, ?_, hgap⟩
    rw [Tree.bytes, Text.bytes, List.cons_append, List.append_assoc,
      skipSpace_of_not_isSpace _ (by decide)] at hs
    rw [outcome_readValue hs, if_pos rfl, List.singleton_append, outcome_readText_raw]
    rfl
  | array inner elements =>
    refine ⟨after.bytes ++ tail, ?_, hgap⟩
    rw [Tree.bytes, List.cons_append, List.append_assoc, List.append_assoc, List.singleton_append,
      skipSpace_of_not_isSpace _ (by decide)] at hs
    rw [outcome_readValue hs, if_neg (by decide), if_pos rfl,
      readElements_elements elements true (skipSpace_gap inner _)]
    rfl
  | object inner members =>
    refine ⟨after.bytes ++ tail, ?_, hgap⟩
    rw [Tree.bytes, List.cons_append, List.append_assoc, List.append_assoc, List.singleton_append,
      skipSpace_of_not_isSpace _ (by decide)] at hs
    rw [outcome_readValue hs, if_neg (by decide), if_neg (by decide), if_pos rfl,
      readMembers_members members true (skipSpace_gap inner _)]
    rfl

/-- An array is read up to its closing bracket. -/
theorem readElements_elements (es : Elements) (first : Bool) {tail s : List UInt8}
    (hs : skipSpace s = skipSpace (es.bytes first ++ closeBracket :: tail)) :
    outcome (readElements first s) = some ((), tail) := by
  cases es with
  | nil =>
    rw [Elements.bytes, List.nil_append, skipSpace_of_not_isSpace _ (by decide)] at hs
    rw [outcome_readElements first hs, if_pos rfl]
  | cons before value after others =>
    rw [Elements.bytes_cons_append] at hs
    have hclosed := others.closed tail
    cases first with
    | false =>
      rw [if_neg Bool.false_ne_true, List.singleton_append,
        skipSpace_of_not_isSpace _ (by decide)] at hs
      obtain ⟨rest, hvalue, hrest⟩ := readValue_tree value after hclosed (skipSpace_gap before _)
      rw [outcome_readElements false hs, if_neg (by decide), if_pos rfl, hvalue]
      exact readElements_elements others false (hrest.trans (skipSpace_closed hclosed).symm)
    | true =>
      -- The value comes without a comma and has to be told from the end of the array.
      obtain ⟨rest, hvalue, hrest⟩ := readValue_tree value after hclosed rfl
      obtain ⟨c, t, hbytes, hspace, hdelimiter⟩ := value.exists_bytes_eq_cons
      rw [if_pos rfl, List.nil_append, skipSpace_gap, hbytes, List.cons_append,
        skipSpace_of_not_isSpace _ hspace] at hs
      rw [hbytes, List.cons_append] at hvalue
      simp only [isDelimiter, Bool.or_eq_true, beq_iff_eq, not_or] at hdelimiter
      rw [outcome_readElements true hs, if_neg hdelimiter.2, if_neg hdelimiter.1.1, if_pos rfl,
        hvalue]
      exact readElements_elements others false (hrest.trans (skipSpace_closed hclosed).symm)

/-- An object is read up to its closing brace. -/
theorem readMembers_members (ms : Members) (first : Bool) {tail s : List UInt8}
    (hs : skipSpace s = skipSpace (ms.bytes first ++ closeBrace :: tail)) :
    outcome (readMembers first s) = some (ms.kept, tail) := by
  cases ms with
  | nil =>
    rw [Members.bytes, List.nil_append, skipSpace_of_not_isSpace _ (by decide)] at hs
    rw [outcome_readMembers first hs, if_pos rfl, Members.kept]
  | cons before name beforeColon afterColon value after others =>
    rw [Members.bytes_cons_append] at hs
    have hclosed := others.closed tail
    obtain ⟨⟨c, t, hc, hbrace⟩, hname⟩ := readName_written before name beforeColon first hs
    obtain ⟨rest, hvalue, hrest⟩ := readValue_tree value after hclosed (skipSpace_gap afterColon _)
    have hothers := readMembers_members others false (hrest.trans (skipSpace_closed hclosed).symm)
    rw [outcome_readMembers first hc, if_neg hbrace, hname, Option.bind_some]
    dsimp only
    rw [hvalue, Option.bind_some]
    dsimp only
    rw [hothers, Members.kept]
    rfl

end

/-- **Every JSON text that is an object is read, and its members are what is kept of it.** -/
theorem readDocument_bytes (d : Document) : readDocument d.bytes = some d.members.kept := by
  have hopen : skipSpace d.bytes = openBrace :: (d.inner.bytes ++ (d.members.bytes true ++
      closeBrace :: d.trail.bytes)) := by
    rw [Document.bytes, skipSpace_gap, Tree.bytes, List.cons_append, List.append_assoc,
      List.append_assoc, List.singleton_append, skipSpace_of_not_isSpace _ (by decide)]
  have hmembers : outcome (readMembers true (d.inner.bytes ++ (d.members.bytes true ++
      closeBrace :: d.trail.bytes))) = some (d.members.kept, d.trail.bytes) :=
    readMembers_members d.members true (skipSpace_gap d.inner _)
  obtain ⟨p, hp, heq⟩ := Option.map_eq_some_iff.mp hmembers
  obtain ⟨hvalue, hrest⟩ := Prod.mk.inj heq
  have htrail : skipSpace d.trail.bytes = [] := by
    have := skipSpace_gap d.trail []
    rwa [List.append_nil] at this
  rw [readDocument, hopen]
  dsimp only
  rw [if_pos rfl, hp, Option.bind_some, hrest, if_pos htrail, hvalue]

end PeerBeacon.Json
