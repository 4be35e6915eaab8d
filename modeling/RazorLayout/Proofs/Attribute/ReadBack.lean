import RazorLayout.Proofs.Attribute.Reading

/-!
# Attributes that are read back

A value is written between two quotes, whether its source had them or not.  The reader takes it back
unless one of two things happens: the same quote stands in the value, outside its expressions, and
ends it too early; or an expression in the value has a group that is never closed, and takes the
quote behind the value with it.

* `Attribute.plainPart` is what a value holds outside its expressions;
* `Attribute.runsOn` says that an expression of a value has a group that is never closed;
* `Attribute.isEnclosed` says that neither of the two things happens.

Results.  `afterExpression_concat`: what a quote behind an expression changes.
`endsAtQuote_iff`: a value is read up to its quote exactly if it is enclosed.
`endsAtQuote_of_splitQuoted?`: a value from between two quotes always is.
`readAll_render_iff`: an attribute that has been read is read back exactly if it is enclosed.
-/

namespace RazorLayout

section Expressions

/-- Whether one of the members, indices and calls at the front of a text is never closed. -/
def accessorsRunOn : Text → Bool
  | '.' :: cs => accessorsRunOn (afterIdentifier cs)
  | '[' :: cs => (splitGroup .brackets cs).isNone || accessorsRunOn (afterGroup .brackets cs)
  | '(' :: cs => (splitGroup .parens cs).isNone || accessorsRunOn (afterGroup .parens cs)
  | _ => false
  termination_by cs => cs.length
  decreasing_by
    · exact Nat.lt_succ_of_le (afterIdentifier_suffix cs).length_le
    · exact Nat.lt_succ_of_le (afterGroup_suffix _ cs).length_le
    · exact Nat.lt_succ_of_le (afterGroup_suffix _ cs).length_le

/-- Whether the expression at the front of a text has a group that is never closed. -/
def expressionRunsOn : Text → Bool
  | [] => false
  | c :: cs =>
      if c = '(' then (splitGroup .parens cs).isNone
      else if c = '[' then (splitGroup .brackets cs).isNone
      else if isIdentifierStart c then accessorsRunOn (afterIdentifier cs)
      else false

variable {quote : Char}

theorem ne_of_isQuote {c d : Char} (hc : isQuote c = true) (hd : isQuote d = false) : c ≠ d := by
  rintro rfl
  rw [hc] at hd
  cases hd

theorem closing_ne_of_isQuote (hquote : isQuote quote = true) :
    Delimiters.brackets.closing ≠ some quote ∧ Delimiters.parens.closing ≠ some quote := by
  have hbracket : quote ≠ ']' := ne_of_isQuote hquote (by decide)
  have hparen : quote ≠ ')' := ne_of_isQuote hquote (by decide)
  exact ⟨fun h => hbracket (Option.some.inj h).symm, fun h => hparen (Option.some.inj h).symm⟩

theorem afterGroup_concat {d : Delimiters} {c : Char} (hclosing : d.closing ≠ some c) (cs : Text) :
    afterGroup d (cs ++ [c]) =
      if (splitGroup d cs).isNone then [] else afterGroup d cs ++ [c] := by
  have hsplit := splitGroupFrom_concat hclosing 0 .outside cs
  rw [afterGroup, afterGroup, splitGroup, hsplit, splitGroup]
  cases splitGroupFrom d 0 .outside cs <;> rfl

theorem afterIdentifier_concat (hquote : isQuote quote = true) (cs : Text) :
    afterIdentifier (cs ++ [quote]) = afterIdentifier cs ++ [quote] := by
  apply dropWhile_append_stop
  rintro c ⟨⟩
  simp only [isQuote, Bool.or_eq_true, beq_iff_eq] at hquote
  rcases hquote with rfl | rfl <;> decide

/-- A quote behind accessors stays behind them, unless the last group takes everything. -/
theorem splitAccessors_concat (hquote : isQuote quote = true) (cs : Text) :
    (splitAccessors (cs ++ [quote])).2 =
      if accessorsRunOn cs then [] else (splitAccessors cs).2 ++ [quote] := by
  obtain ⟨hbrackets, hparens⟩ := closing_ne_of_isQuote hquote
  have hnil : splitAccessors [] = ([], []) := splitAccessors_of_ne (by simp)
  fun_induction accessorsRunOn cs with
  | case1 cs ih =>
      rw [List.cons_append, splitAccessors, splitAccessors, afterIdentifier_concat hquote]
      exact ih
  | case2 cs ih =>
      rw [List.cons_append, splitAccessors, splitAccessors, afterGroup_concat hbrackets]
      cases hgroup : (splitGroup .brackets cs).isNone with
      | true => simp [hnil]
      | false => simpa using ih
  | case3 cs ih =>
      rw [List.cons_append, splitAccessors, splitAccessors, afterGroup_concat hparens]
      cases hgroup : (splitGroup .parens cs).isNone with
      | true => simp [hnil]
      | false => simpa using ih
  | case4 cs hdot hopening hcall =>
      have hcs : ∀ c ∈ cs.head?, c ≠ '.' ∧ c ≠ '(' ∧ c ≠ '[' := by
        cases cs with
        | nil => simp
        | cons c cs =>
            rintro d ⟨⟩
            exact ⟨fun h => hdot cs (by rw [h]), fun h => hcall cs (by rw [h]),
              fun h => hopening cs (by rw [h])⟩
      have hconcat : ∀ c ∈ (cs ++ [quote]).head?, c ≠ '.' ∧ c ≠ '(' ∧ c ≠ '[' := by
        cases cs with
        | nil =>
            rintro c ⟨⟩
            exact ⟨ne_of_isQuote hquote (by decide), ne_of_isQuote hquote (by decide),
              ne_of_isQuote hquote (by decide)⟩
        | cons c cs => exact hcs
      rw [splitAccessors_of_ne hcs, splitAccessors_of_ne hconcat]
      rfl

/-- A quote behind an expression stays behind it, unless a group of it takes everything. -/
theorem afterExpression_concat (hquote : isQuote quote = true) (cs : Text) :
    afterExpression (cs ++ [quote]) =
      if expressionRunsOn cs then [] else afterExpression cs ++ [quote] := by
  obtain ⟨hbrackets, hparens⟩ := closing_ne_of_isQuote hquote
  unfold afterExpression
  fun_cases expressionRunsOn cs with
  | case1 =>
      have hparen : quote ≠ '(' := ne_of_isQuote hquote (by decide)
      have hbracket : quote ≠ '[' := ne_of_isQuote hquote (by decide)
      have hstart : ¬ isIdentifierStart quote = true := by
        simp only [isQuote, Bool.or_eq_true, beq_iff_eq] at hquote
        rcases hquote with rfl | rfl <;> decide
      simp [splitExpression, hparen, hbracket, hstart]
  | case2 cs =>
      rw [List.cons_append, splitExpression, if_pos rfl, splitExpression, if_pos rfl]
      exact afterGroup_concat hparens cs
  | case3 cs hparen =>
      rw [List.cons_append, splitExpression, if_neg hparen, if_pos rfl, splitExpression,
        if_neg hparen, if_pos rfl]
      exact afterGroup_concat hbrackets cs
  | case4 c cs hparen hbracket hstart =>
      rw [List.cons_append, splitExpression, if_neg hparen, if_neg hbracket, if_pos hstart,
        splitExpression, if_neg hparen, if_neg hbracket, if_pos hstart,
        afterIdentifier_concat hquote]
      exact splitAccessors_concat hquote _
  | case5 c cs hparen hbracket hstart =>
      rw [List.cons_append, splitExpression, if_neg hparen, if_neg hbracket, if_neg hstart,
        splitExpression, if_neg hparen, if_neg hbracket, if_neg hstart]
      rfl

end Expressions

namespace Attribute

section Values

/-- The characters of a value outside its embedded expressions. -/
def plainPart : Text → Text
  | [] => []
  | c :: cs => if c = sigil then c :: plainPart (afterExpression cs) else c :: plainPart cs
  termination_by cs => cs.length
  decreasing_by
    · exact Nat.lt_succ_of_le (afterExpression_suffix cs).length_le
    · exact Nat.lt_succ_self _

/-- Whether an embedded expression of a value has a group that is never closed. -/
def runsOn : Text → Bool
  | [] => false
  | c :: cs =>
      if c = sigil then expressionRunsOn cs || runsOn (afterExpression cs) else runsOn cs
  termination_by cs => cs.length
  decreasing_by
    · exact Nat.lt_succ_of_le (afterExpression_suffix cs).length_le
    · exact Nat.lt_succ_self _

/-- Whether the quotes around the value of an attribute, if it has one, hold it together. -/
def isEnclosed (a : Attribute) : Bool :=
  match a.value, a.quote with
  | some value, some [quote] => !(plainPart value).contains quote && !runsOn value
  | _, _ => true

end Values

section Enclosing

variable {quote : Char} {name value cs rest : Text} {a : Attribute}

/-- Where a value is read up to the end of the text, it is read whole. -/
theorem endsAtQuote_iff_exists :
    endsAtQuote quote value = true ↔
      ∃ read, splitQuoted? quote (value ++ [quote]) = some (read, []) := by
  rw [endsAtQuote, beq_iff_eq]
  constructor
  · exact fun h => ⟨value, h⟩
  · rintro ⟨read, hread⟩
    rw [hread, List.append_cancel_right (splitQuoted?_eq hread)]

/-- The reader comes to the quote behind a value exactly if nothing in the value stops it earlier,
and nothing in the value takes that quote. -/
theorem exists_splitQuoted?_concat (hquote : isQuote quote = true) (value : Text) :
    (∃ read, splitQuoted? quote (value ++ [quote]) = some (read, [])) ↔
      quote ∉ plainPart value ∧ runsOn value = false := by
  have hsigil : sigil ≠ quote := (ne_of_isQuote hquote (by decide)).symm
  induction hn : value.length using Nat.strongRecOn generalizing value with
  | ind n ih =>
      cases value with
      | nil => simp [splitQuoted?, plainPart, runsOn]
      | cons c cs =>
          rw [List.cons_append, splitQuoted?, plainPart, runsOn]
          by_cases hc : c = quote
          · subst hc
            simp [Ne.symm hsigil]
          · rw [if_neg hc]
            by_cases hs : c = sigil
            · subst hs
              have hlength : (afterExpression cs).length < n :=
                hn ▸ Nat.lt_succ_of_le (afterExpression_suffix cs).length_le
              rw [if_pos rfl, if_pos rfl, if_pos rfl, afterExpression_concat hquote]
              cases hruns : expressionRunsOn cs with
              | true => simp [splitQuoted?]
              | false => simpa [Ne.symm hc] using ih _ hlength _ rfl
            · rw [if_neg hs, if_neg hs, if_neg hs]
              simpa [Ne.symm hc] using ih _ (hn ▸ Nat.lt_succ_self _) cs rfl

theorem endsAtQuote_iff (hquote : isQuote quote = true) :
    endsAtQuote quote value = true ↔ quote ∉ plainPart value ∧ runsOn value = false :=
  endsAtQuote_iff_exists.trans (exists_splitQuoted?_concat hquote value)

/-- A value between two quotes is read again up to the second one: what it was read from decides. -/
theorem endsAtQuote_of_splitQuoted? (h : splitQuoted? quote cs = some (value, rest)) :
    endsAtQuote quote value = true := by
  have hcs : cs = value ++ [quote] ++ rest := by
    rw [splitQuoted?_eq h, List.append_cons]
  rw [hcs] at h
  exact beq_iff_eq.2 ((selfDelimiting_splitQuoted? quote).cut h)

end Enclosing

section ReadBack

variable {name value cs rest : Text} {a : Attribute}

theorem isAttributeName_of_splitName? (h : splitName? cs = some (name, rest)) :
    isAttributeName name = true := by
  unfold splitName? at h
  split at h
  · cases h
  · rename_i c run hrun
    cases h
    have hchars : ∀ d ∈ c :: run, isNameChar d = true := by
      intro d hd
      rw [← hrun] at hd
      exact List.mem_takeWhile_imp hd
    have hc : c ≠ '@' := ne_of_isNameChar (hchars c List.mem_cons_self) (by decide)
    have hsigil : (splitSigil cs).1 = ['@'] ∨ (splitSigil cs).1 = [] := by
      unfold splitSigil
      split
      · exact .inl rfl
      · exact .inr rfl
    have hname : (splitSigil ((splitSigil cs).1 ++ c :: run)).2 = c :: run := by
      rcases hsigil with hsigil | hsigil
      · rw [hsigil]
        rfl
      · rw [hsigil]
        simp [splitSigil, hc]
    rw [isAttributeName, hname]
    simpa using hchars

theorem splitName?_eq_none_iff :
    splitName? cs = none ↔ (splitSigil cs).2.takeWhile isNameChar = [] := by
  unfold splitName?
  split <;> simp_all

/-- Where no name starts, none starts in a part that is cut off at the front. -/
theorem splitName?_eq_none_of_isPrefix {s t : Text} (h : s <+: t) (hnone : splitName? t = none) :
    splitName? s = none := by
  have hbehind : (splitSigil s).2 <+: (splitSigil t).2 := by
    obtain ⟨more, rfl⟩ := h
    cases s with
    | nil => exact List.nil_prefix
    | cons c s =>
        by_cases hc : c = '@'
        · simp [splitSigil, hc]
        · simp [splitSigil, hc]
  obtain ⟨more, hmore⟩ := hbehind
  have hstop := splitName?_eq_none_iff.1 hnone
  rw [← hmore] at hstop
  apply splitName?_eq_none_iff.2
  cases hs : (splitSigil s).2 with
  | nil => rfl
  | cons c x =>
      have hc : ¬ isNameChar c = true := by
        intro hc
        rw [hs, List.cons_append, List.takeWhile_cons_of_pos hc] at hstop
        cases hstop
      exact List.takeWhile_cons_of_neg hc

/-- A run is read back: it starts no name, and it ends where the text ends. -/
theorem readAll_run {c : Char} (hspace : isSpace c = false) (h : splitName? (c :: cs) = none) :
    readAll (c :: (splitRun cs).1) = [{ name := c :: (splitRun cs).1 }] := by
  have hprefix : c :: (splitRun cs).1 <+: c :: cs :=
    ⟨(splitRun cs).2, by rw [List.cons_append, splitRun_append]⟩
  have hrun : splitRun (splitRun cs).1 = ((splitRun cs).1, []) := by
    have hall : ∀ d ∈ (splitRun cs).1, (!isSpace d) = true :=
      fun d hd => List.mem_takeWhile_imp (p := fun c => !isSpace c) hd
    rw [splitRun, List.takeWhile_eq_self_iff.2 hall, List.dropWhile_eq_nil_iff.2 hall]
  rw [readAll_cons (Text.afterSpaces_of_not_isSpace hspace _), read,
    splitName?_eq_none_of_isPrefix hprefix h]
  simp only [hrun]
  rw [readAll_gap Text.isGap_nil]

theorem exists_cons_of_isAttributeName (h : isAttributeName name = true) :
    ∃ c cs, name = c :: cs ∧ isSpace c = false := by
  obtain ⟨base, hne, hchars, hbase⟩ := isAttributeName_cases h
  obtain ⟨c, cs, rfl⟩ := List.exists_cons_of_ne_nil hne
  rcases hbase with rfl | rfl
  · exact ⟨c, cs, rfl, isSpace_eq_false_of_isNameChar (hchars c List.mem_cons_self)⟩
  · exact ⟨'@', c :: cs, rfl, by decide⟩

theorem readAll_bare (hname : isAttributeName name = true) : readAll name = [{ name := name }] := by
  obtain ⟨c, cs, hcons, hspace⟩ := exists_cons_of_isAttributeName hname
  have hsplit := splitName?_append hname endsName_nil
  have hequals : afterEquals? [] = none := rfl
  rw [List.append_nil, hcons] at hsplit
  rw [hcons, readAll_cons (Text.afterSpaces_of_not_isSpace hspace _), read, hsplit]
  simp only [hequals]
  rw [readAll_gap Text.isGap_nil]

/-- What is read first behind a name, an equals sign and a quote, and what is read next. -/
theorem readAll_quoted {quote : Char} (hname : isAttributeName name = true)
    (hquote : isQuote quote = true) (t : Text) :
    readAll (name ++ '=' :: quote :: t) =
      { name := name, value := some (readValue (quote :: t)).value,
        quote := some [(readValue (quote :: t)).quote] } ::
        readAll (readValue (quote :: t)).rest := by
  obtain ⟨c, cs, hcons, hspace⟩ := exists_cons_of_isAttributeName hname
  have htext : name ++ '=' :: quote :: t = c :: (cs ++ '=' :: quote :: t) := by
    rw [hcons, List.cons_append]
  rw [htext, readAll_cons (Text.afterSpaces_of_not_isSpace hspace _),
    read_quoted hname hquote htext]

/-- An attribute with a value is read back exactly if its value is read up to its quote: else the
value that is read is shorter, or it takes the quote behind it. -/
theorem readAll_render_quoted_iff {quote : Char} (hname : isAttributeName name = true)
    (hquote : isQuote quote = true) :
    readAll (render { name := name, value := some value, quote := some [quote] }) =
        [{ name := name, value := some value, quote := some [quote] }] ↔
      endsAtQuote quote value = true := by
  rw [render_quoted, readAll_quoted hname hquote, readValue, if_pos hquote]
  cases hsplit : splitQuoted? quote (value ++ [quote]) with
  | none => simp [endsAtQuote, hsplit]
  | some parts =>
      obtain ⟨read, behind⟩ := parts
      constructor
      · intro h
        simp only [List.cons.injEq, Attribute.mk.injEq, Option.some.injEq] at h
        rw [← h.1.2.1]
        exact endsAtQuote_of_splitQuoted? hsplit
      · intro h
        rw [endsAtQuote, beq_iff_eq, hsplit] at h
        cases h
        simp [readAll_gap Text.isGap_nil]

theorem isEnclosed_iff {quote : Char} (hquote : isQuote quote = true) :
    isEnclosed { name := name, value := some value, quote := some [quote] } = true ↔
      endsAtQuote quote value = true := by
  simp [isEnclosed, endsAtQuote_iff hquote]

/-- Whichever way an attribute is read: without a value nothing can go wrong, and with one the value
decides, whether its source had both quotes, one or none. -/
theorem Reads.readAll_eq_iff (hspace : ∀ c ∈ cs.head?, isSpace c = false)
    (h : Reads cs a rest) : readAll a.render = [a] ↔ a.isEnclosed = true := by
  cases h with
  | run hname => exact iff_of_true (readAll_run (hspace _ rfl) hname) rfl
  | bare hname hequals => exact iff_of_true (readAll_bare (isAttributeName_of_splitName? hname)) rfl
  | closed hname hequals hquote hvalue =>
      rw [isEnclosed_iff hquote]
      exact readAll_render_quoted_iff (isAttributeName_of_splitName? hname) hquote
  | unclosed hname hequals hquote hvalue =>
      rw [isEnclosed_iff hquote]
      exact readAll_render_quoted_iff (isAttributeName_of_splitName? hname) hquote
  | unquoted hname hequals hhead =>
      rw [isEnclosed_iff (by decide)]
      exact readAll_render_quoted_iff (isAttributeName_of_splitName? hname) (by decide)

end ReadBack

/-- An attribute that has been read is read back from its written form exactly if the quotes that it
is written with hold its value together. -/
theorem readAll_render_iff {cs : Text} {a : Attribute} (ha : a ∈ readAll cs) :
    readAll a.render = [a] ↔ a.isEnclosed = true := by
  obtain ⟨c, text, rest, hspace, hreads⟩ := (readsAll_readAll cs).exists_reads ha
  exact hreads.readAll_eq_iff (by simpa using hspace)

/-- An expression hides the quotes in its groups.  Outside an expression a quote ends the value. -/
theorem readAll_render_iff_samples :
    let cs := "class=@(on ? \"a\" : \"b\") onclick=go(\"x\")".toList
    let hidden : Attribute :=
      { name := "class".toList, value := some "@(on ? \"a\" : \"b\")".toList, quote := some ['"'] }
    let plain : Attribute :=
      { name := "onclick".toList, value := some "go(\"x\")".toList, quote := some ['"'] }
    readAll cs = [hidden, plain] ∧ readAll hidden.render = [hidden] ∧
      readAll plain.render ≠ [plain] := by
  intro cs hidden plain
  have hread : readAll cs = [hidden, plain] := by decide +kernel
  have hhidden : hidden.isEnclosed = true := by decide +kernel
  have hplain : plain.isEnclosed = false := by decide +kernel
  have hfirst : hidden ∈ readAll cs := by simp [hread]
  have hsecond : plain ∈ readAll cs := by simp [hread]
  refine ⟨hread, (readAll_render_iff hfirst).2 hhidden, fun h => ?_⟩
  rw [(readAll_render_iff hsecond).1 h] at hplain
  cases hplain

/-- An unquoted value with a quote in it falls apart when it is read again, and a value with a group
that is never closed takes the quote behind it. -/
theorem readAll_render_ne :
    let unquoted : Attribute :=
      { name := ['a'], value := some "x\"y\"z".toList, quote := some ['"'] }
    let unclosed : Attribute := { name := ['a'], value := some "@(x".toList, quote := some ['\''] }
    readAll "a=x\"y\"z".toList = [unquoted] ∧ readAll unquoted.render ≠ [unquoted] ∧
      readAll unquoted.render = [{ name := ['a'], value := some ['x'], quote := some ['"'] },
        { name := ['y'] }, { name := "\"z\"".toList }] ∧
      readAll "a='@(x".toList = [unclosed] ∧ readAll unclosed.render ≠ [unclosed] ∧
      readAll unclosed.render = [{ unclosed with value := some "@(x'".toList }] := by
  decide +kernel

end Attribute

end RazorLayout
