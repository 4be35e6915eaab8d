import RazorLayout.Proofs.Block.Span
import RazorLayout.Proofs.Token.Resume

/-!
# Pieces on their own

A recognizer looks ahead, and often far behind the piece that it finds: for another clause, for the
end of a word, for a bracket that never comes.  A piece that is cut out of its template is still
recognized as what it was, and not as something else, because

* each recognizer finds its own pieces again (`IsDetachable.alone`), and
* the recognizers that are asked before it still refuse (`IsDetachable.refuses`).

Only a directive depends on the character behind it, since its name could be the beginning of a
longer word or of an expression; running text never stops at such a character (`EndsWord`).

Results.  `readToken_alone`: a piece that is read in front of some text is read alone.
`tokenize_raw`: hence every piece of a template, kept content apart, is the only piece of its own
characters.
-/

namespace RazorLayout

variable {c : Char} {cs x y rest : Text} {token : Token}

section Recognizers

/-- A recognizer whose pieces can be cut out of their text. -/
structure IsDetachable (read : Text → Option (Token × Text)) : Prop where
  /-- A piece is cut off the front. -/
  cuts : ∀ ⦃cs piece⦄, read cs = some piece → Cuts cs piece
  /-- What is refused in front of more text is refused at the end of the text. -/
  refuses : ∀ ⦃x y⦄, read (x ++ y) = none → read x = none
  /-- A piece is found again when nothing stands behind it. -/
  alone : ∀ ⦃cs token rest⦄, read cs = some (token, rest) → read token.raw = some (token, [])

theorem IsDetachable.or {read read' : Text → Option (Token × Text)} (h : IsDetachable read)
    (h' : IsDetachable read') : IsDetachable fun cs => (read cs).or (read' cs) where
  cuts := by
    intro cs piece hread
    rcases Option.or_eq_some_iff.1 hread with hread | ⟨-, hread⟩
    · exact h.cuts hread
    · exact h'.cuts hread
  refuses := by
    intro x y hnone
    obtain ⟨hfirst, hsecond⟩ := Option.or_eq_none_iff.1 hnone
    exact Option.or_eq_none_iff.2 ⟨h.refuses hfirst, h'.refuses hsecond⟩
  alone := by
    intro cs token rest hread
    rcases Option.or_eq_some_iff.1 hread with hread | ⟨hnone, hread⟩
    · exact Option.or_eq_some_iff.2 (.inl (h.alone hread))
    · rw [(h'.cuts hread).1] at hnone
      exact Option.or_eq_some_iff.2 (.inr ⟨h.refuses hnone, h'.alone hread⟩)

theorem isDetachable_readBlock? : IsDetachable readBlock? where
  cuts := fun _ _ => readBlock?_cuts
  refuses := by
    intro x y hnone
    rw [readBlock?, Option.map_eq_none_iff] at hnone ⊢
    exact Block.read?_eq_none_of_append hnone
  alone := by
    intro cs token rest hread
    obtain ⟨⟨block, tail⟩, hblock, he⟩ := Option.map_eq_some_iff.1 hread
    cases he
    have hsplit := Text.front_append (Block.read?_suffix hblock)
    rw [← hsplit] at hblock
    have hfront := Text.front_append_right (Text.front cs tail) []
    rw [List.append_nil] at hfront
    simp [readBlock?, Block.read?_cut hblock, hfront]

theorem Text.after?_eq_none_of_append {word : Text} (h : Text.after? word (x ++ y) = none) :
    Text.after? word x = none := by
  cases hafter : Text.after? word x with
  | none => rfl
  | some inner =>
      rw [Text.after?_eq_some_iff.1 hafter, List.append_assoc, Text.after?_eq_some_iff.2 rfl] at h
      cases h

theorem isDetachable_readComment? : IsDetachable readComment? where
  cuts := fun _ _ => readComment?_cuts
  refuses := by
    intro x y hnone
    rw [readComment?, Option.map_eq_none_iff] at hnone ⊢
    exact Text.after?_eq_none_of_append hnone
  alone := by
    intro cs token rest hread
    obtain ⟨inner, hinner, he⟩ := Option.map_eq_some_iff.1 hread
    split at he
    · rename_i content tail hclosing
      cases he
      have hagain : Text.splitAt? commentClosing (content ++ commentClosing) =
          some (content, []) := by
        rw [Text.splitAt?_eq hclosing] at hclosing
        exact (selfDelimiting_splitAt? (by decide)).cut hclosing
      have hopening : Text.after? commentOpening (commentOpening ++ content ++ commentClosing) =
          some (content ++ commentClosing) :=
        Text.after?_eq_some_iff.2 (List.append_assoc _ _ _)
      simp only [readComment?, hopening, Option.map_some, hagain]
    · cases he
      exact hread

/-- The first bracket of a text is still the first when the text ends there. -/
theorem bracket_alone (cs : Text) :
    beforeBracket (beforeBracket cs ++ ['>']) = beforeBracket cs ∧
      afterBracket? (beforeBracket cs ++ ['>']) = some [] :=
  ⟨beforeBracket_append (not_mem_beforeBracket cs) [],
    afterBracket?_append (not_mem_beforeBracket cs) []⟩

theorem doctypeOpening_of_readDoctype? {piece : Token × Text} (h : readDoctype? cs = some piece) :
    Text.lower (cs.take doctypeOpening.length) = doctypeOpening := by
  by_contra hopening
  rw [readDoctype?, if_neg hopening] at h
  cases h

theorem length_le_of_lower_take {word : Text} (h : Text.lower (cs.take word.length) = word) :
    word.length ≤ cs.length := by
  have hlength := congrArg List.length h
  simp only [Text.lower, List.length_map, List.length_take] at hlength
  omega

theorem isDetachable_readDoctype? : IsDetachable readDoctype? where
  cuts := fun _ _ => readDoctype?_cuts
  refuses := by
    intro x y hnone
    cases hread : readDoctype? x with
    | none => rfl
    | some piece =>
        have hopening := doctypeOpening_of_readDoctype? hread
        have htake : (x ++ y).take doctypeOpening.length = x.take doctypeOpening.length :=
          List.take_append_of_le_length (length_le_of_lower_take hopening)
        rw [readDoctype?, htake, if_pos hopening] at hnone
        split at hnone <;> cases hnone
  alone := by
    intro cs token rest hread
    have hopening := doctypeOpening_of_readDoctype? hread
    have hlength : (cs.take doctypeOpening.length).length = doctypeOpening.length :=
      List.length_take_of_le (length_le_of_lower_take hopening)
    have hagain := hread
    rw [readDoctype?, if_pos hopening] at hread
    split at hread
    · cases hread
      obtain ⟨hbefore, hafter⟩ := bracket_alone (cs.drop doctypeOpening.length)
      have htake : ∀ tail, (cs.take doctypeOpening.length ++ tail).take doctypeOpening.length =
          cs.take doctypeOpening.length := fun tail => List.take_left' hlength
      have hdrop : ∀ tail, (cs.take doctypeOpening.length ++ tail).drop doctypeOpening.length =
          tail := fun tail => List.drop_left' hlength
      simp only [List.append_assoc, readDoctype?, htake, hdrop, hbefore, hafter, hopening, if_true]
    · cases hread
      exact hagain

theorem isDetachable_readCloseTag? : IsDetachable readCloseTag? where
  cuts := fun _ _ => readCloseTag?_cuts
  refuses := by
    intro x y hnone
    rw [readCloseTag?, Option.map_eq_none_iff] at hnone ⊢
    exact Text.after?_eq_none_of_append hnone
  alone := by
    intro cs token rest hread
    obtain ⟨inner, hinner, he⟩ := Option.map_eq_some_iff.1 hread
    split at he
    · cases he
      obtain ⟨hbefore, hafter⟩ := bracket_alone inner
      have hopening : Text.after? closeOpening (closeOpening ++ beforeBracket inner ++ ['>']) =
          some (beforeBracket inner ++ ['>']) :=
        Text.after?_eq_some_iff.2 (List.append_assoc _ _ _)
      simp only [readCloseTag?, hopening, Option.map_some, hbefore, hafter]
    · cases he
      exact hread

theorem exists_letter_of_readOpenTag? {piece : Token × Text} (h : readOpenTag? cs = some piece) :
    ∃ c tail, cs = '<' :: c :: tail ∧ c.isAlpha = true := by
  unfold readOpenTag? at h
  split at h
  · rename_i c tail
    split at h
    · rename_i hletter
      exact ⟨c, tail, rfl, hletter⟩
    · cases h
  · cases h

theorem isDetachable_readOpenTag? : IsDetachable readOpenTag? where
  cuts := fun _ _ => readOpenTag?_cuts
  refuses := by
    intro x y hnone
    cases hread : readOpenTag? x with
    | none => rfl
    | some piece =>
        obtain ⟨c, tail, rfl, hletter⟩ := exists_letter_of_readOpenTag? hread
        rw [List.cons_append, List.cons_append, readOpenTag?, if_pos hletter] at hnone
        split at hnone <;> cases hnone
  alone := by
    intro cs token rest hread
    obtain ⟨c, tail, rfl, hletter⟩ := exists_letter_of_readOpenTag? hread
    have hagain := hread
    rw [readOpenTag?, if_pos hletter] at hread
    split at hread
    · rename_i inner rest' hsplit
      cases hread
      -- The name of the tag starts in front of the bracket, so there is something between the two.
      obtain ⟨d, inside, rfl⟩ : ∃ d inside, inner = d :: inside := by
        cases inner with
        | nil =>
            cases splitTag?_eq hsplit
            exact absurd hletter (by decide)
        | cons d inside => exact ⟨d, inside, rfl⟩
      have hcs := splitTag?_eq hsplit
      obtain ⟨rfl, htail⟩ := List.cons.inj hcs
      have hend : splitTag? none (c :: (inside ++ ['>'])) = some (c :: inside, []) := by
        rw [hcs, List.append_cons] at hsplit
        exact (selfDelimiting_splitTag? none).cut hsplit
      simp only [List.cons_append, readOpenTag?, hletter, hend, if_true]
    · cases hread
      exact hagain

theorem isDetachable_readMarkup? : IsDetachable readMarkup? :=
  isDetachable_readComment?.or (isDetachable_readDoctype?.or
    (isDetachable_readCloseTag?.or isDetachable_readOpenTag?))

end Recognizers

section Directives

/-- A text that goes on neither with an identifier nor with a member, a call or an index. -/
def EndsWord (y : Text) : Prop :=
  (∀ c ∈ y.head?, isIdentifierChar c = false) ∧ startsAccessor y = false

/-- A directive is recognized by its name, and so by the character behind the name. -/
theorem isSome_splitDirective?_append (hy : EndsWord y) :
    (splitDirective? (c :: x ++ y)).isSome = (splitDirective? (c :: x)).isSome := by
  by_cases hsigil : c = '@'
  · subst hsigil
    have haccessor : startsAccessor (afterIdentifier (x ++ y)) =
        startsAccessor (afterIdentifier x) := by
      rw [afterIdentifier, dropWhile_append_stop hy.1, ← afterIdentifier]
      cases afterIdentifier x with
      | nil => exact hy.2
      | cons d tail => rfl
    simp only [List.cons_append, splitDirective?, takeWhile_append_stop hy.1, haccessor]
    split <;> rfl
  · have hnone : ∀ tail, splitDirective? (c :: tail) = none := by
      intro tail
      unfold splitDirective?
      split <;> simp_all
    rw [List.cons_append, hnone, hnone]

/-- A directive takes the rest of its line. -/
theorem exists_line_of_splitDirective? {raw : Text} (h : splitDirective? cs = some (raw, rest)) :
    ∃ body, cs = '@' :: body ∧ raw = '@' :: body.takeWhile (fun c => c != '\n') ∧
      rest = body.dropWhile fun c => c != '\n' := by
  unfold splitDirective? at h
  split at h
  · rename_i body
    split at h
    · cases h
      exact ⟨body, rfl, rfl, rfl⟩
    · cases h
  · cases h

theorem endsWord_lineEnd (body : Text) : EndsWord (body.dropWhile fun c => c != '\n') := by
  have hfeed : ∀ c ∈ (body.dropWhile fun c => c != '\n').head?, c = '\n' := by
    intro c hc
    simpa using head?_dropWhile_eq_false (fun c => c != '\n') body c hc
  constructor
  · intro c hc
    rw [hfeed c hc]
    decide
  · cases hrest : body.dropWhile fun c => c != '\n' with
    | nil => rfl
    | cons c rest =>
        rw [hrest] at hfeed
        rw [hfeed c rfl]
        rfl

theorem readDirective?_alone (h : readDirective? cs = some (token, rest)) :
    readDirective? token.raw = some (token, []) := by
  obtain ⟨⟨raw, tail⟩, hsplit, he⟩ := Option.map_eq_some_iff.1 h
  cases he
  obtain ⟨body, rfl, rfl, rfl⟩ := exists_line_of_splitDirective? hsplit
  have hline : ∀ c ∈ body.takeWhile (fun c => c != '\n'), (c != '\n') = true :=
    fun c hc => List.mem_takeWhile_imp (p := fun c => c != '\n') hc
  have hsome : (splitDirective? ('@' :: body.takeWhile fun c => c != '\n')).isSome = true := by
    rw [← isSome_splitDirective?_append (endsWord_lineEnd body), List.cons_append,
      List.takeWhile_append_dropWhile, hsplit]
    rfl
  obtain ⟨⟨raw, rest⟩, hagain⟩ := Option.isSome_iff_exists.1 hsome
  obtain ⟨body', hbody, rfl, rfl⟩ := exists_line_of_splitDirective? hagain
  cases hbody
  rw [List.takeWhile_eq_self_iff.2 hline, List.dropWhile_eq_nil_iff.2 hline] at hagain
  rw [readDirective?, hagain]
  rfl

end Directives

section RunningText

theorem EndsText.endsWord (h : EndsText y) : EndsWord y := by
  rcases h with rfl | h
  · exact ⟨by simp, rfl⟩
  · unfold startsConstruct at h
    split at h
    · exact ⟨by simp; decide, rfl⟩
    · exact ⟨by simp; decide, rfl⟩
    · cases h

theorem endsText_splitText (cs : Text) : EndsText (splitText cs).2 := by
  induction cs with
  | nil => exact .inl rfl
  | cons c cs ih =>
      rw [splitText]
      split
      · rename_i hstop
        exact .inr hstop
      · exact ih

theorem startsConstruct_eq_false_of_append (hy : EndsWord y)
    (h : startsConstruct (c :: x ++ y) = false) : startsConstruct (c :: x) = false := by
  by_cases hsigil : c = '@'
  · subst hsigil
    rw [List.cons_append] at h
    simp only [startsConstruct, Bool.or_eq_false_iff] at h ⊢
    rw [← List.cons_append, isSome_splitDirective?_append hy, Option.isSome_eq_false_iff,
      Option.isNone_iff_eq_none] at h
    exact ⟨by rw [Block.read?_eq_none_of_append h.1]; rfl, h.2⟩
  · cases x with
    | nil =>
      unfold startsConstruct
      split <;> simp_all
    | cons d x =>
      have hboth : ∀ tail, startsConstruct (c :: d :: tail) = startsConstruct [c, d] := by
        intro tail
        unfold startsConstruct
        split <;> simp_all
      rw [List.cons_append, List.cons_append, hboth] at h
      rw [hboth]
      exact h

theorem readConstruct?_eq_none_of_append (hy : EndsWord y)
    (h : readConstruct? (c :: x ++ y) = none) : readConstruct? (c :: x) = none := by
  rw [readConstruct?_eq, Option.or_eq_none_iff, Option.or_eq_none_iff] at h ⊢
  obtain ⟨hblock, hdirective, hmarkup⟩ := h
  refine ⟨isDetachable_readBlock?.refuses hblock, ?_, isDetachable_readMarkup?.refuses hmarkup⟩
  rw [readDirective?, Option.map_eq_none_iff, ← Option.not_isSome_iff_eq_none] at hdirective ⊢
  rwa [isSome_splitDirective?_append hy] at hdirective

/-- Running text that is cut out of its template does not stop earlier. -/
theorem splitText_alone (cs : Text) : splitText (splitText cs).1 = ((splitText cs).1, []) := by
  induction cs with
  | nil => rfl
  | cons c cs ih =>
      by_cases hstop : startsConstruct (c :: cs) = true
      · simp [splitText, hstop]
      · -- Text runs up to a bracket or a sigil, and neither goes on with a word.
        have hgo : startsConstruct (c :: (splitText cs).1) = false := by
          apply startsConstruct_eq_false_of_append (endsText_splitText cs).endsWord
          rw [List.cons_append, splitText_append]
          simpa using hstop
        simp [splitText, hstop, hgo, ih]

end RunningText

section Pieces

theorem readConstruct?_alone (h : readConstruct? cs = some (token, rest)) :
    readConstruct? token.raw = some (token, []) := by
  rw [readConstruct?_eq, Option.or_eq_some_iff, Option.or_eq_some_iff] at h ⊢
  rcases h with hblock | ⟨hblock, hdirective | ⟨-, hmarkup⟩⟩
  · exact .inl (isDetachable_readBlock?.alone hblock)
  · rw [(readDirective?_cuts hdirective).1] at hblock
    exact .inr ⟨isDetachable_readBlock?.refuses hblock, .inl (readDirective?_alone hdirective)⟩
  · -- Markup starts with an angle bracket, and neither blocks nor directives do.
    have hagain := isDetachable_readMarkup?.alone hmarkup
    obtain ⟨tail, hraw⟩ := List.head?_eq_some_iff.1 (head?_of_readMarkup? hagain)
    rw [hraw] at hagain ⊢
    exact .inr ⟨rfl, .inr ⟨rfl, hagain⟩⟩

/-- A piece that is read in front of some text is read alone as well. -/
theorem readToken_alone (h : readToken c cs = (token, rest)) :
    ∃ tail, token.raw = c :: tail ∧ readToken c tail = (token, []) := by
  obtain ⟨tail, hraw, hcs⟩ := exists_raw_eq_cons h
  refine ⟨tail, hraw, ?_⟩
  unfold readToken at h
  split at h
  · rename_i piece hread
    subst h
    apply readToken_of_readConstruct?
    rw [← hraw]
    exact readConstruct?_alone hread
  · rename_i hnone
    cases h
    cases hraw
    rw [← splitText_append cs, ← List.cons_append] at hnone
    have hagain := readConstruct?_eq_none_of_append (endsText_splitText cs).endsWord hnone
    simp [readToken, hagain, splitText_alone]

/-- Every piece of a template that is not kept content stands on its own: cut out of the template,
it is one piece, of the same kind, with the same name and the same attributes. -/
theorem tokenize_raw {t : Text} (i : Fin (tokenize t).length) (h : ¬ IsKept t i) :
    tokenize ((tokenize t).get i).raw = [(tokenize t).get i] := by
  obtain ⟨c, cs, rest, -, hread, -⟩ := exists_readToken_of_not_isKept i h
  obtain ⟨tail, hraw, hagain⟩ := readToken_alone hread
  rw [hraw]
  exact tokenize_eq_singleton hagain

/-- A block in front of an alternative that is never closed. -/
theorem tokenize_raw_block :
    (tokenize "@if (a) { b } else if (c<p>".toList)[0]? = some ⟨.block, "@if (a) { b }".toList⟩ ∧
      ¬ IsKept "@if (a) { b } else if (c<p>".toList 0 ∧
      tokenize "@if (a) { b }".toList = [⟨.block, "@if (a) { b }".toList⟩] := by
  have hfirst : (tokenize "@if (a) { b } else if (c<p>".toList)[0]? =
      some ⟨.block, "@if (a) { b }".toList⟩ := by
    decide +kernel
  have hkept : ¬ IsKept "@if (a) { b } else if (c<p>".toList 0 := by
    rintro ⟨name, hname, -⟩
    cases hname
  obtain ⟨hlength, hget⟩ := List.getElem?_eq_some_iff.1 hfirst
  have halone := tokenize_raw ⟨0, hlength⟩ hkept
  rw [List.get_eq_getElem, hget] at halone
  exact ⟨hfirst, hkept, halone⟩

end Pieces

end RazorLayout
