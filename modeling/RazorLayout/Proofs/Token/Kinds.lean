import RazorLayout.Proofs.Token.Alone

/-!
# What the kinds of tokens say

Each kind of token but text describes the characters that a token of this kind is made of
(`TokenKind.Describes`).  The recognizers are tried in a fixed order and look ahead, but a token
that has been read is found again on its own.  So it is enough to say which texts a recognizer takes
as a whole:

* `readComment?_whole_iff`, `readDoctype?_whole_iff`, `readCloseTag?_whole_iff`,
  `readOpenTag?_whole_iff`, `readDirective?_whole_iff`, `readBlock?_whole_iff`: one for each
  recognizer;
* `readConstruct?_whole_iff`: all of them, in their order.

Result.  `tokenize_kinds`: every token of every text is what its kind says, and every text that is
what a kind says is one token of this kind.
-/

namespace RazorLayout

/-! ### Descriptions -/

/-- A name with as many name characters as there are in front of `rest`. -/
structure IsLongestName (name rest : Text) : Prop where
  isTagName : isTagName name = true
  stops : ∀ c ∈ rest.head?, isNameChar c = false

/-- Whether the characters behind the name of a tag end with a slash. -/
def endsInSlash (rest : Text) : Bool :=
  rest.stripEnd.getLast? == some '/'

/-- The characters behind the name of a tag without the blanks and the slash at their end. -/
def attributeText (rest : Text) : Text :=
  if endsInSlash rest then rest.stripEnd.dropLast else rest.stripEnd

/-- The characters of an opening tag, or of one that is complete. -/
def Tag.Fills (tag : Tag) (complete : Bool) (raw : Text) : Prop :=
  ∃ rest, raw = '<' :: (tag.name ++ rest) ++ ['>'] ∧ IsLongestName tag.name rest ∧
    (complete = true ↔ isVoidName tag.name = true ∨ endsInSlash rest = true) ∧
    tag.attributes = Attribute.readAll (attributeText rest) ∧
    -- The bracket at the end is the first one outside of quotes and expressions.
    splitTag? none (tag.name ++ rest ++ ['>']) = some (tag.name ++ rest, [])

/-- The characters that a token of some kind is made of. -/
def TokenKind.Describes : TokenKind → Text → Prop
  | .openTag tag, raw => tag.Fills false raw
  | .selfClosingTag tag, raw => tag.Fills true raw
  | .closeTag name, raw => ∃ gap rest,
      raw = closeOpening ++ (gap ++ name ++ rest) ++ ['>'] ∧ Text.IsGap gap ∧
        IsLongestName name rest ∧ '>' ∉ rest
  | .text, _ => True
  | .comment, raw => ∃ content,
      raw = commentOpening ++ content ++ commentClosing ∧
        ∀ before behind, content ++ commentClosing = before ++ commentClosing ++ behind →
          behind = []
  | .doctype, raw => ∃ opening content,
      raw = opening ++ content ++ ['>'] ∧ Text.lower opening = doctypeOpening ∧ '>' ∉ content
  | .directive, raw =>
      '\n' ∉ raw ∧ splitDirective? raw = some (raw, []) ∧ Block.endAt? raw 0 = none
  | .block, raw => Block.endAt? raw 0 = some raw.length

variable {kind : TokenKind} {raw name rest : Text}

/-! ### Comments -/

section Comments

/-- A word that occurs is found, and no later than there. -/
theorem Text.exists_splitAt?_append (word before behind : Text) :
    ∃ parts, Text.splitAt? word (before ++ word ++ behind) = some parts ∧
      parts.1.length ≤ before.length := by
  induction before with
  | nil =>
      exact ⟨([], behind), Text.splitAt?_of_after? (Text.after?_eq_some_iff.2 rfl), Nat.le_refl _⟩
  | cons c before ih =>
      obtain ⟨parts, hparts, hlength⟩ := ih
      cases hafter : Text.after? word (c :: before ++ word ++ behind) with
      | some tail => exact ⟨([], tail), Text.splitAt?_of_after? hafter, Nat.zero_le _⟩
      | none =>
          refine ⟨(c :: parts.1, parts.2), ?_, Nat.succ_le_succ hlength⟩
          simp only [List.cons_append] at hafter hparts ⊢
          rw [Text.splitAt?, hafter]
          simp only [hparts, Option.map_some]

/-- A word is found at the end of a text exactly when it does not occur in front of the end. -/
theorem Text.splitAt?_append_iff {word before : Text} :
    Text.splitAt? word (before ++ word) = some (before, []) ↔
      ∀ front behind, before ++ word = front ++ word ++ behind → behind = [] := by
  constructor
  · intro h front behind heq
    obtain ⟨parts, hparts, hlength⟩ := exists_splitAt?_append word front behind
    rw [← heq, h] at hparts
    cases hparts
    change before.length ≤ front.length at hlength
    have hsum := congrArg List.length heq
    simp only [List.length_append] at hsum
    exact List.length_eq_zero_iff.1 (by omega)
  · intro h
    obtain ⟨⟨front, behind⟩, hparts, -⟩ := exists_splitAt?_append word before []
    rw [List.append_nil] at hparts
    have heq := Text.splitAt?_eq hparts
    cases h front behind heq
    rw [List.append_nil] at heq
    rw [hparts, List.append_cancel_right heq]

theorem readComment?_whole_iff (hkind : kind ≠ .text) :
    readComment? raw = some (⟨kind, raw⟩, []) ↔
      kind = .comment ∧ TokenKind.comment.Describes raw := by
  constructor
  · intro h
    obtain ⟨inner, hinner, he⟩ := Option.map_eq_some_iff.1 h
    split at he
    · rename_i content tail hclosing
      cases he
      refine ⟨rfl, content, rfl, Text.splitAt?_append_iff.1 ?_⟩
      have hrest := Text.splitAt?_eq hclosing
      rw [List.append_nil] at hrest
      rwa [hrest] at hclosing
    · cases he
      exact absurd rfl hkind
  · rintro ⟨rfl, content, rfl, hfirst⟩
    have hopening : Text.after? commentOpening (commentOpening ++ content ++ commentClosing) =
        some (content ++ commentClosing) :=
      Text.after?_eq_some_iff.2 (List.append_assoc _ _ _)
    simp only [readComment?, hopening, Option.map_some, Text.splitAt?_append_iff.2 hfirst]

end Comments

/-! ### Document types -/

theorem readDoctype?_whole_iff (hkind : kind ≠ .text) :
    readDoctype? raw = some (⟨kind, raw⟩, []) ↔
      kind = .doctype ∧ TokenKind.doctype.Describes raw := by
  constructor
  · intro h
    have hopening := doctypeOpening_of_readDoctype? h
    rw [readDoctype?, if_pos hopening] at h
    split at h
    · rw [Option.some.injEq, Prod.mk.injEq, Token.mk.injEq] at h
      obtain ⟨⟨rfl, hraw⟩, -⟩ := h
      exact ⟨rfl, _, _, hraw.symm, hopening, not_mem_beforeBracket _⟩
    · cases h
      exact absurd rfl hkind
  · rintro ⟨rfl, opening, content, rfl, hopening, hcontent⟩
    have hlength : opening.length = doctypeOpening.length := by
      rw [← hopening, Text.lower, List.length_map]
    have htake : (opening ++ content ++ ['>']).take doctypeOpening.length = opening := by
      rw [List.append_assoc, List.take_left' hlength]
    have hdrop : (opening ++ content ++ ['>']).drop doctypeOpening.length = content ++ ['>'] := by
      rw [List.append_assoc, List.drop_left' hlength]
    rw [readDoctype?, htake, hdrop, if_pos hopening, afterBracket?_append hcontent [],
      beforeBracket_append hcontent []]

/-! ### Tags -/

section Tags

theorem isLongestName_takeWhile {c : Char} (hc : c.isAlpha = true) (cs : Text) :
    IsLongestName ((c :: cs).takeWhile isNameChar) ((c :: cs).dropWhile isNameChar) where
  isTagName := by
    rw [List.takeWhile_cons_of_pos (isNameChar_of_isAlpha hc)]
    exact isTagName_takeWhile hc cs
  stops := head?_dropWhile_eq_false isNameChar (c :: cs)

theorem IsLongestName.takeWhile_append (h : IsLongestName name rest) :
    (name ++ rest).takeWhile isNameChar = name := by
  obtain ⟨-, -, -, -, hchars⟩ := isTagName_cases h.isTagName
  exact takeWhile_append_all hchars h.stops

theorem IsLongestName.dropWhile_append (h : IsLongestName name rest) :
    (name ++ rest).dropWhile isNameChar = rest := by
  obtain ⟨-, -, -, -, hchars⟩ := isTagName_cases h.isTagName
  exact dropWhile_append_all hchars h.stops

/-- A closing tag has the name that stands behind the blanks at its front. -/
theorem closeKind_eq_closeTag_iff {inner : Text} :
    closeKind inner = .closeTag name ↔
      ∃ gap rest, inner = gap ++ name ++ rest ∧ Text.IsGap gap ∧ IsLongestName name rest := by
  constructor
  · intro h
    obtain ⟨gap, hgap, hinner⟩ := Text.exists_gap inner
    cases hstart : afterSpaces inner with
    | nil => simp [closeKind, hstart, leadingName] at h
    | cons c cs =>
        by_cases hc : c.isAlpha = true
        · have hname : (c :: cs).takeWhile isNameChar = name := by
            rw [List.takeWhile_cons_of_pos (isNameChar_of_isAlpha hc)]
            simpa [closeKind, hstart, leadingName, hc] using h
          refine ⟨gap, (c :: cs).dropWhile isNameChar, ?_, hgap,
            hname ▸ isLongestName_takeWhile hc cs⟩
          rw [← hname, List.append_assoc, List.takeWhile_append_dropWhile, ← hstart, ← hinner]
        · simp [closeKind, hstart, leadingName, hc] at h
  · rintro ⟨gap, rest, rfl, hgap, hname⟩
    have htake := hname.takeWhile_append
    obtain ⟨c, cs, rfl, hc, -⟩ := isTagName_cases hname.isTagName
    have hspace : isSpace c = false := isSpace_eq_false_of_isNameChar (isNameChar_of_isAlpha hc)
    rw [List.cons_append, List.takeWhile_cons_of_pos (isNameChar_of_isAlpha hc),
      List.cons.injEq] at htake
    rw [closeKind, List.append_assoc, Text.afterSpaces_gap_append hgap, List.cons_append,
      Text.afterSpaces_of_not_isSpace hspace, leadingName, if_pos hc, htake.2]

theorem closeKind_cases (inner : Text) :
    closeKind inner = .text ∨ ∃ name, closeKind inner = .closeTag name := by
  unfold closeKind
  split
  · exact .inl rfl
  · exact .inr ⟨_, rfl⟩

theorem readCloseTag?_whole_iff (hkind : kind ≠ .text) :
    readCloseTag? raw = some (⟨kind, raw⟩, []) ↔
      ∃ name, kind = .closeTag name ∧ kind.Describes raw := by
  constructor
  · intro h
    obtain ⟨inner, hinner, he⟩ := Option.map_eq_some_iff.1 h
    split at he
    · rw [Prod.mk.injEq, Token.mk.injEq] at he
      obtain ⟨⟨rfl, hraw⟩, -⟩ := he
      obtain htext | ⟨name, hname⟩ := closeKind_cases (beforeBracket inner)
      · exact absurd htext hkind
      · obtain ⟨gap, rest, hbefore, hgap, hlongest⟩ := closeKind_eq_closeTag_iff.1 hname
        rw [hname]
        refine ⟨name, rfl, gap, rest, ?_, hgap, hlongest, ?_⟩
        · rw [← hbefore, hraw]
        · have hout := not_mem_beforeBracket inner
          rw [hbefore, List.mem_append, not_or] at hout
          exact hout.2
    · cases he
      exact absurd rfl hkind
  · rintro ⟨name, rfl, gap, rest, rfl, hgap, hlongest, hrest⟩
    obtain ⟨-, -, -, -, hchars⟩ := isTagName_cases hlongest.isTagName
    have hinside : '>' ∉ gap ++ name ++ rest := by
      simp only [List.mem_append, not_or]
      refine ⟨⟨fun hmem => ?_, fun hmem => ne_of_isNameChar (hchars _ hmem) (by decide) rfl⟩, hrest⟩
      exact absurd (hgap _ hmem) (by decide)
    have hopening : Text.after? closeOpening (closeOpening ++ (gap ++ name ++ rest) ++ ['>']) =
        some (gap ++ name ++ rest ++ ['>']) :=
      Text.after?_eq_some_iff.2 (List.append_assoc _ _ _)
    have hname : closeKind (gap ++ name ++ rest) = .closeTag name :=
      closeKind_eq_closeTag_iff.2 ⟨gap, rest, rfl, hgap, hlongest⟩
    simp only [readCloseTag?, hopening, Option.map_some, afterBracket?_append hinside [],
      beforeBracket_append hinside [], hname]

/-- The parts of a tag are told apart by where its name ends. -/
theorem tagOf_append (h : IsLongestName name rest) :
    tagOf (name ++ rest) =
      (⟨name, Attribute.readAll (attributeText rest)⟩, endsInSlash rest) := by
  simp only [tagOf, h.takeWhile_append, h.dropWhile_append, attributeText]
  by_cases hslash : rest.stripEnd.getLast? = some '/'
  · simp [hslash, endsInSlash]
  · simp [hslash, endsInSlash]

theorem tagKind_append (h : IsLongestName name rest) :
    tagKind (name ++ rest) =
      if endsInSlash rest || isVoidName name then
        .selfClosingTag ⟨name, Attribute.readAll (attributeText rest)⟩
      else .openTag ⟨name, Attribute.readAll (attributeText rest)⟩ := by
  rw [tagKind, tagOf_append h]

/-- What is read as a whole tag: a name, and a bracket at the end that no quotes and no expression
take in. -/
theorem readOpenTag?_eq_some_iff (hkind : kind ≠ .text) :
    readOpenTag? raw = some (⟨kind, raw⟩, []) ↔
      ∃ name rest, raw = '<' :: (name ++ rest) ++ ['>'] ∧ IsLongestName name rest ∧
        splitTag? none (name ++ rest ++ ['>']) = some (name ++ rest, []) ∧
        kind = tagKind (name ++ rest) := by
  constructor
  · intro h
    obtain ⟨c, cs, rfl, hc⟩ := exists_letter_of_readOpenTag? h
    rw [readOpenTag?, if_pos hc] at h
    split at h
    · rename_i inner tail hsplit
      rw [Option.some.injEq, Prod.mk.injEq, Token.mk.injEq] at h
      obtain ⟨⟨rfl, hraw⟩, rfl⟩ := h
      have hcs := splitTag?_eq hsplit
      cases inner with
      | nil =>
          cases hcs
          exact absurd hc (by decide)
      | cons d inside =>
          obtain ⟨rfl, -⟩ := List.cons.inj hcs
          have hparts := List.takeWhile_append_dropWhile (p := isNameChar) (l := c :: inside)
          refine ⟨_, _, ?_, isLongestName_takeWhile hc inside, ?_, ?_⟩
          · rw [hparts, hraw]
          · rw [hparts, ← hcs, hsplit]
          · rw [hparts]
    · cases h
      exact absurd rfl hkind
  · rintro ⟨name, rest, rfl, hlongest, hsplit, rfl⟩
    obtain ⟨c, cs, rfl, hc, -⟩ := isTagName_cases hlongest.isTagName
    simp only [List.cons_append] at hsplit ⊢
    rw [readOpenTag?, if_pos hc, hsplit]
    rfl

theorem readOpenTag?_whole_iff (hkind : kind ≠ .text) :
    readOpenTag? raw = some (⟨kind, raw⟩, []) ↔
      ∃ tag, (kind = .openTag tag ∨ kind = .selfClosingTag tag) ∧ kind.Describes raw := by
  rw [readOpenTag?_eq_some_iff hkind]
  constructor
  · rintro ⟨name, rest, hraw, hlongest, hsplit, hname⟩
    rw [tagKind_append hlongest] at hname
    refine ⟨⟨name, Attribute.readAll (attributeText rest)⟩, ?_⟩
    split at hname
    · rename_i hcomplete
      subst hname
      refine ⟨.inr rfl, rest, hraw, hlongest, ?_, rfl, hsplit⟩
      simpa [or_comm] using hcomplete
    · rename_i hcomplete
      subst hname
      refine ⟨.inl rfl, rest, hraw, hlongest, ?_, rfl, hsplit⟩
      simpa [and_comm] using hcomplete
  · rintro ⟨⟨name, attributes⟩, rfl | rfl, rest, hraw, hlongest, hcomplete, rfl, hsplit⟩
    · refine ⟨name, rest, hraw, hlongest, hsplit, ?_⟩
      rw [tagKind_append hlongest, if_neg]
      simpa [or_comm] using hcomplete
    · refine ⟨name, rest, hraw, hlongest, hsplit, ?_⟩
      rw [tagKind_append hlongest, if_pos]
      simpa [or_comm] using hcomplete

end Tags

/-! ### Blocks and directives -/

section Sigils

theorem Block.endAt?_zero_eq_none_iff : Block.endAt? raw 0 = none ↔ Block.read? raw = none := by
  rw [Block.endAt?, Option.map_eq_none_iff, List.drop_zero]

/-- A block covers a text when it ends where the text ends. -/
theorem Block.endAt?_zero_eq_length_iff :
    Block.endAt? raw 0 = some raw.length ↔ ∃ block, Block.read? raw = some (block, []) := by
  rw [Block.endAt?, List.drop_zero]
  constructor
  · intro h
    obtain ⟨⟨block, rest⟩, hread, hlength⟩ := Option.map_eq_some_iff.1 h
    have hfront := Text.front_append (Block.read?_suffix hread)
    have hpos := List.length_pos_iff.2 (Block.front_read?_ne_nil hread)
    have hsum := congrArg List.length hfront
    simp only [indexOf, List.drop_zero, List.length_append] at hlength hsum
    have hrest : rest = [] := List.length_eq_zero_iff.1 (by omega)
    exact ⟨block, hrest ▸ hread⟩
  · rintro ⟨block, hread⟩
    simp [hread, indexOf]

theorem readBlock?_whole_iff :
    readBlock? raw = some (⟨kind, raw⟩, []) ↔ kind = .block ∧ TokenKind.block.Describes raw := by
  rw [TokenKind.Describes, Block.endAt?_zero_eq_length_iff]
  constructor
  · intro h
    obtain ⟨⟨block, rest⟩, hread, he⟩ := Option.map_eq_some_iff.1 h
    rw [Prod.mk.injEq, Token.mk.injEq] at he
    obtain ⟨⟨rfl, -⟩, rfl⟩ := he
    exact ⟨rfl, block, hread⟩
  · rintro ⟨rfl, block, hread⟩
    have hfront : Text.front raw [] = raw := by
      simpa using Text.front_append_right raw []
    rw [readBlock?, hread, Option.map_some, hfront]

theorem readDirective?_whole_iff :
    readBlock? raw = none ∧ readDirective? raw = some (⟨kind, raw⟩, []) ↔
      kind = .directive ∧ TokenKind.directive.Describes raw := by
  rw [TokenKind.Describes, Block.endAt?_zero_eq_none_iff, readBlock?, Option.map_eq_none_iff]
  constructor
  · rintro ⟨hblock, h⟩
    obtain ⟨⟨line, rest⟩, hsplit, he⟩ := Option.map_eq_some_iff.1 h
    rw [Prod.mk.injEq, Token.mk.injEq] at he
    obtain ⟨⟨rfl, rfl⟩, rfl⟩ := he
    refine ⟨rfl, ?_, hsplit, hblock⟩
    obtain ⟨body, -, hline, -⟩ := exists_line_of_splitDirective? hsplit
    rw [hline]
    intro hmem
    rcases List.mem_cons.1 hmem with hfeed | hfeed
    · cases hfeed
    · cases List.mem_takeWhile_imp (p := fun c => c != '\n') hfeed
  · rintro ⟨rfl, -, hsplit, hblock⟩
    refine ⟨hblock, ?_⟩
    rw [readDirective?, hsplit]
    rfl

end Sigils

/-! ### All kinds -/

section Kinds

variable {cs : Text} {piece : Token × Text}

theorem readMarkup?_of_readDoctype? (h : readDoctype? cs = some piece) :
    readMarkup? cs = some piece := by
  have hcomment : readComment? cs = none := by
    rw [readComment?, Option.map_eq_none_iff, Option.eq_none_iff_forall_ne_some]
    intro inner hafter
    have hcs : cs = '<' :: '!' :: '-' :: '-' :: inner := Text.after?_eq_some_iff.1 hafter
    have hword : doctypeOpening = '<' :: '!' :: 'd' :: "octype".toList := rfl
    have hopening := doctypeOpening_of_readDoctype? h
    rw [hcs, hword, List.length_cons, List.length_cons, List.length_cons, List.take_succ_cons,
      List.take_succ_cons, List.take_succ_cons, Text.lower, List.map_cons, List.map_cons,
      List.map_cons, List.cons.injEq, List.cons.injEq, List.cons.injEq] at hopening
    exact absurd hopening.2.2.1 (by decide)
  rw [readMarkup?, hcomment, Option.none_or, h, Option.some_or]

theorem readMarkup?_of_readCloseTag? (h : readCloseTag? cs = some piece) :
    readMarkup? cs = some piece := by
  obtain ⟨inner, hinner, -⟩ := Option.map_eq_some_iff.1 h
  obtain rfl := Text.after?_eq_some_iff.1 hinner
  have hcomment : readComment? (closeOpening ++ inner) = none := by
    simp [readComment?, Text.after?, commentOpening, closeOpening]
  have hdoctype : readDoctype? (closeOpening ++ inner) = none :=
    readDoctype?_eq_none (by simp [closeOpening])
  rw [readMarkup?, hcomment, Option.none_or, hdoctype, Option.none_or, h, Option.some_or]

theorem readMarkup?_of_readOpenTag? (h : readOpenTag? cs = some piece) :
    readMarkup? cs = some piece := by
  obtain ⟨c, tail, rfl, hc⟩ := exists_letter_of_readOpenTag? h
  have hmark : '!' ≠ c := by
    rintro rfl
    exact absurd hc (by decide)
  have hslash : '/' ≠ c := by
    rintro rfl
    exact absurd hc (by decide)
  have hcomment : readComment? ('<' :: c :: tail) = none := by
    simp [readComment?, Text.after?, commentOpening, hmark]
  have hdoctype : readDoctype? ('<' :: c :: tail) = none :=
    readDoctype?_eq_none (by simp [hmark.symm])
  have hclose : readCloseTag? ('<' :: c :: tail) = none := by
    simp [readCloseTag?, Text.after?, closeOpening, hslash]
  rw [readMarkup?, hcomment, Option.none_or, hdoctype, Option.none_or, hclose, Option.none_or, h]

/-- No text starts with two kinds of markup, so the order of the recognizers plays no part. -/
theorem readMarkup?_whole_iff (hkind : kind ≠ .text) :
    readMarkup? raw = some (⟨kind, raw⟩, []) ↔
      kind.Describes raw ∧ kind ≠ .block ∧ kind ≠ .directive := by
  constructor
  · intro hread
    simp only [readMarkup?, Option.or_eq_some_iff] at hread
    rcases hread with hread | ⟨-, hread | ⟨-, hread | ⟨-, hread⟩⟩⟩
    · obtain ⟨rfl, h⟩ := (readComment?_whole_iff hkind).1 hread
      exact ⟨h, by simp⟩
    · obtain ⟨rfl, h⟩ := (readDoctype?_whole_iff hkind).1 hread
      exact ⟨h, by simp⟩
    · obtain ⟨name, rfl, h⟩ := (readCloseTag?_whole_iff hkind).1 hread
      exact ⟨h, by simp⟩
    · obtain ⟨tag, rfl | rfl, h⟩ := (readOpenTag?_whole_iff hkind).1 hread
      · exact ⟨h, by simp⟩
      · exact ⟨h, by simp⟩
  · rintro ⟨h, hblock, hdirective⟩
    cases kind with
    | text => exact absurd rfl hkind
    | block => exact absurd rfl hblock
    | directive => exact absurd rfl hdirective
    | comment =>
        have hread := (readComment?_whole_iff hkind).2 ⟨rfl, h⟩
        rw [readMarkup?, hread, Option.some_or]
    | doctype => exact readMarkup?_of_readDoctype? ((readDoctype?_whole_iff hkind).2 ⟨rfl, h⟩)
    | closeTag name =>
        exact readMarkup?_of_readCloseTag? ((readCloseTag?_whole_iff hkind).2 ⟨name, rfl, h⟩)
    | openTag tag =>
        exact readMarkup?_of_readOpenTag? ((readOpenTag?_whole_iff hkind).2 ⟨tag, .inl rfl, h⟩)
    | selfClosingTag tag =>
        exact readMarkup?_of_readOpenTag? ((readOpenTag?_whole_iff hkind).2 ⟨tag, .inr rfl, h⟩)

/-- A text is read as one construct exactly when it is what the kind of the construct says. -/
theorem readConstruct?_whole_iff (hkind : kind ≠ .text) :
    readConstruct? raw = some (⟨kind, raw⟩, []) ↔ kind.Describes raw := by
  rw [readConstruct?_eq, Option.or_eq_some_iff, Option.or_eq_some_iff]
  constructor
  · rintro (hread | ⟨hblock, hread | ⟨-, hread⟩⟩)
    · obtain ⟨rfl, h⟩ := readBlock?_whole_iff.1 hread
      exact h
    · obtain ⟨rfl, h⟩ := readDirective?_whole_iff.1 ⟨hblock, hread⟩
      exact h
    · exact ((readMarkup?_whole_iff hkind).1 hread).1
  · intro h
    by_cases hblock : kind = .block
    · subst hblock
      exact .inl (readBlock?_whole_iff.2 ⟨rfl, h⟩)
    by_cases hdirective : kind = .directive
    · subst hdirective
      obtain ⟨hnone, hread⟩ := readDirective?_whole_iff.2 ⟨rfl, h⟩
      exact .inr ⟨hnone, .inl hread⟩
    -- Markup starts with an angle bracket, and neither blocks nor directives do.
    have hread := (readMarkup?_whole_iff hkind).2 ⟨h, hblock, hdirective⟩
    obtain ⟨tail, rfl⟩ := List.head?_eq_some_iff.1 (head?_of_readMarkup? hread)
    exact .inr ⟨rfl, .inr ⟨rfl, hread⟩⟩

theorem describes_readToken (c : Char) (cs : Text) :
    (readToken c cs).1.kind.Describes (readToken c cs).1.raw := by
  by_cases hkind : (readToken c cs).1.kind = .text
  · rw [hkind]
    trivial
  · unfold readToken at hkind ⊢
    split at hkind
    · rename_i piece hread
      exact (readConstruct?_whole_iff hkind).1 (readConstruct?_alone hread)
    · exact absurd rfl hkind

theorem tokenize_of_describes (hkind : kind ≠ .text) (h : kind.Describes raw) :
    tokenize raw = [⟨kind, raw⟩] := by
  have hread := (readConstruct?_whole_iff hkind).2 h
  obtain ⟨c, cs, rfl⟩ := List.exists_cons_of_ne_nil (readConstruct?_cuts hread).2
  exact tokenize_eq_singleton (readToken_of_readConstruct? hread)

/-- Whether a token is a tag. -/
def TokenKind.isTag : TokenKind → Bool
  | .openTag _ => true
  | .selfClosingTag _ => true
  | .closeTag _ => true
  | _ => false

/-- Every token of every text is what its kind says: its characters are those of the kind, it is
void exactly when it is the tag of a void element, and it has a name or attributes only as a tag.
The other way round, a text that is what a kind says is one token of this kind. -/
theorem tokenize_kinds (t : Text) :
    (∀ token ∈ tokenize t, token.kind.Describes token.raw ∧
      (∀ tag, token.kind = .openTag tag ∨ token.kind = .selfClosingTag tag →
        (token.kind.isVoid = true ↔ Text.lower tag.name ∈ voidElements)) ∧
      (token.kind.isTag = false →
        token.kind.tagName? = none ∧ token.kind.attributes = [] ∧ token.kind.isVoid = false)) ∧
      ∀ kind : TokenKind, kind ≠ .text → kind.Describes t → tokenize t = [⟨kind, t⟩] := by
  refine ⟨fun token htoken => ⟨?_, ?_, ?_⟩, fun kind => tokenize_of_describes⟩
  · exact forall_mem_tokenize (P := fun token => token.kind.Describes token.raw)
      describes_readToken (fun _ => trivial) t token htoken
  · rintro tag (hkind | hkind)
    · rw [hkind, TokenKind.isVoid, isVoidName, List.contains_iff_mem]
    · rw [hkind, TokenKind.isVoid, isVoidName, List.contains_iff_mem]
  · intro htag
    cases hkind : token.kind <;> simp_all [TokenKind.isTag, TokenKind.tagName?,
      TokenKind.attributes, TokenKind.isVoid]

/-- A void element whose attribute holds a bracket, behind a line that could have been a block, and
a declaration in mixed case. -/
theorem tokenize_kinds_bracket :
    (TokenKind.selfClosingTag ⟨"Br".toList,
        [{ name := "a".toList, value := some ">".toList, quote := some "'".toList }]⟩).Describes
      "<Br a='>'>".toList ∧
      tokenize "<!DocType x>".toList = [⟨.doctype, "<!DocType x>".toList⟩] := by
  constructor
  · exact ((tokenize_kinds "@using x\n<Br a='>'>".toList).1
      ⟨.selfClosingTag ⟨"Br".toList,
        [{ name := "a".toList, value := some ">".toList, quote := some "'".toList }]⟩,
        "<Br a='>'>".toList⟩ (by decide +kernel)).1
  · exact (tokenize_kinds "<!DocType x>".toList).2 .doctype (by decide)
      ⟨"<!DocType".toList, " x".toList, by decide, by decide, by decide⟩

end Kinds

end RazorLayout
