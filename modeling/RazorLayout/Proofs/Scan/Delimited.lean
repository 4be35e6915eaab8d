import Mathlib.Data.List.TakeWhile
import RazorLayout.Proofs.Scan.Walk
import RazorLayout.Token.Lexer

/-!
# What a scanner has to see

A scanner is *self-delimiting* when the part of the text that it reads decides its answer: it reads
at least one character, and whatever stands behind that part, it reads the same.  A text may
therefore be cut behind such a part, or go on differently, without a change.

Not every scanner is.  One that skips as many characters as it can also sees the character at which
it stops; that is no harm if another scanner goes on from there, because this one reads that
character (`SelfDelimiting.span`).

Results.

* Words, groups, quoted values and the inside of a tag are read by self-delimiting scanners.
* `splitExpression_stop`: an embedded expression is decided by its own characters and the next one.
-/

namespace RazorLayout

section Runs

variable {p : Char → Bool} {s rest : Text}

theorem takeWhile_append_stop (h : ∀ c ∈ rest.head?, p c = false) :
    (s ++ rest).takeWhile p = s.takeWhile p := by
  induction s with
  | nil =>
      cases rest with
      | nil => rfl
      | cons c rest => simp [h c rfl]
  | cons c s ih =>
      by_cases hc : p c = true
      · rw [List.cons_append, List.takeWhile_cons_of_pos hc, List.takeWhile_cons_of_pos hc, ih]
      · rw [List.cons_append, List.takeWhile_cons_of_neg hc, List.takeWhile_cons_of_neg hc]

theorem dropWhile_append_stop (h : ∀ c ∈ rest.head?, p c = false) :
    (s ++ rest).dropWhile p = s.dropWhile p ++ rest := by
  induction s with
  | nil =>
      cases rest with
      | nil => rfl
      | cons c rest => simp [h c rfl]
  | cons c s ih =>
      by_cases hc : p c = true
      · rw [List.cons_append, List.dropWhile_cons_of_pos hc, List.dropWhile_cons_of_pos hc, ih]
      · rw [List.cons_append, List.dropWhile_cons_of_neg hc, List.dropWhile_cons_of_neg hc]
        rfl

theorem takeWhile_append_all (hs : ∀ c ∈ s, p c = true) (h : ∀ c ∈ rest.head?, p c = false) :
    (s ++ rest).takeWhile p = s := by
  rw [takeWhile_append_stop h, List.takeWhile_eq_self_iff.2 hs]

theorem dropWhile_append_all (hs : ∀ c ∈ s, p c = true) (h : ∀ c ∈ rest.head?, p c = false) :
    (s ++ rest).dropWhile p = rest := by
  rw [dropWhile_append_stop h, List.dropWhile_eq_nil_iff.2 hs]
  rfl

/-- The character at which a run stops does not belong to it. -/
theorem head?_dropWhile_eq_false (p : Char → Bool) (s : Text) :
    ∀ c ∈ (s.dropWhile p).head?, p c = false := by
  intro c hc
  have hstop := List.head?_dropWhile_not p s
  rw [Option.mem_def.1 hc] at hstop
  simpa using hstop

end Runs

section SelfDelimiting

variable {α β : Type}

/-- On `cs` the scanner answers `a` and leaves `rest`, and it would do so with any other text in the
place of `rest`. -/
def Delimits (scan : Text → Option (α × Text)) (cs : Text) (a : α) (rest : Text) : Prop :=
  ∃ read, cs = read ++ rest ∧ read ≠ [] ∧ ∀ other, scan (read ++ other) = some (a, other)

/-- What the scanner reads decides its answer. -/
def SelfDelimiting (scan : Text → Option (α × Text)) : Prop :=
  ∀ ⦃cs a rest⦄, scan cs = some (a, rest) → Delimits scan cs a rest

variable {scan scan' : Text → Option (α × Text)} {next : α → Text → Option (β × Text)}

theorem selfDelimiting_none : SelfDelimiting fun _ : Text => (none : Option (α × Text)) := by
  rintro cs a rest ⟨⟩

/-- A scanner that takes one character and goes on with another one. -/
theorem Delimits.cons {f : α → β} {first : Text → Option (β × Text)} {c : Char} {cs rest : Text}
    {a : α} (h : Delimits scan cs a rest)
    (hfirst : ∀ tail, first (c :: tail) = (scan tail).map fun parts => (f parts.1, parts.2)) :
    Delimits first (c :: cs) (f a) rest := by
  obtain ⟨read, rfl, -, hread⟩ := h
  refine ⟨c :: read, rfl, List.cons_ne_nil _ _, fun other => ?_⟩
  rw [List.cons_append, hfirst, hread]
  rfl

theorem SelfDelimiting.map (h : SelfDelimiting scan) (f : α → β) :
    SelfDelimiting fun cs => (scan cs).bind fun parts => some (f parts.1, parts.2) := by
  intro cs b rest hscan
  obtain ⟨⟨a, tail⟩, ha, he⟩ := Option.bind_eq_some_iff.1 hscan
  cases he
  obtain ⟨read, rfl, hne, hread⟩ := h ha
  exact ⟨read, rfl, hne, fun other => by simp [hread]⟩

theorem SelfDelimiting.bind (h : SelfDelimiting scan) (hnext : ∀ a, SelfDelimiting (next a)) :
    SelfDelimiting fun cs => (scan cs).bind fun parts => next parts.1 parts.2 := by
  intro cs b rest hscan
  obtain ⟨⟨a, middle⟩, ha, hb⟩ := Option.bind_eq_some_iff.1 hscan
  obtain ⟨read, rfl, hne, hread⟩ := h ha
  obtain ⟨more, rfl, -, hmore⟩ := hnext a hb
  refine ⟨read ++ more, by simp, by simp [hne], fun other => ?_⟩
  simp only [List.append_assoc, hread, Option.bind_some]
  exact hmore other

/-- Of two scanners that never read the same text it does not matter which one is asked first. -/
theorem SelfDelimiting.or (h : SelfDelimiting scan) (h' : SelfDelimiting scan')
    (hdisjoint : ∀ cs, (scan' cs).isSome → scan cs = none) :
    SelfDelimiting fun cs => (scan cs).or (scan' cs) := by
  intro cs a rest hscan
  rcases Option.or_eq_some_iff.1 hscan with ha | ⟨-, ha⟩
  · obtain ⟨read, rfl, hne, hread⟩ := h ha
    exact ⟨read, rfl, hne, fun other => by simp [hread]⟩
  · obtain ⟨read, rfl, hne, hread⟩ := h' ha
    refine ⟨read, rfl, hne, fun other => ?_⟩
    have hnone : scan (read ++ other) = none := hdisjoint _ (by simp [hread])
    simp [hnone, hread]

/-- A scanner that is chosen by the first character of the text. -/
theorem SelfDelimiting.byHead (scan : Option Char → Text → Option (α × Text))
    (h : ∀ c, SelfDelimiting (scan c)) : SelfDelimiting fun cs => scan cs.head? cs := by
  intro cs a rest hscan
  obtain ⟨read, rfl, hne, hread⟩ := h _ hscan
  obtain ⟨c, read, rfl⟩ := List.exists_cons_of_ne_nil hne
  exact ⟨c :: read, rfl, hne, hread⟩

/-- A scanner that goes on behind a run, and may look at the run. -/
theorem SelfDelimiting.span {scan : Text → Text → Option (α × Text)}
    (h : ∀ run, SelfDelimiting (scan run)) (p : Char → Bool) :
    SelfDelimiting fun cs => scan (cs.takeWhile p) (cs.dropWhile p) := by
  intro cs a rest hscan
  obtain ⟨read, hcs, hne, hread⟩ := h _ hscan
  obtain ⟨c, read, rfl⟩ := List.exists_cons_of_ne_nil hne
  have hstop : p c = false := head?_dropWhile_eq_false p cs c (by rw [hcs]; rfl)
  have hrun : ∀ d ∈ cs.takeWhile p, p d = true := fun d hd => List.mem_takeWhile_imp hd
  refine ⟨cs.takeWhile p ++ c :: read, ?_, by simp, fun other => ?_⟩
  · rw [List.append_assoc, ← hcs, List.takeWhile_append_dropWhile]
  · have hhead : ∀ d ∈ (c :: read ++ other).head?, p d = false := by
      simpa using hstop
    simp only [List.append_assoc, takeWhile_append_all hrun hhead,
      dropWhile_append_all hrun hhead, hread]

theorem SelfDelimiting.dropWhile (h : SelfDelimiting scan) (p : Char → Bool) :
    SelfDelimiting fun cs => scan (cs.dropWhile p) :=
  SelfDelimiting.span (fun _ => h) p

/-- What a scanner refuses in front of more text it refuses at the end of the text as well. -/
theorem SelfDelimiting.eq_none_of_append (h : SelfDelimiting scan) {x y : Text}
    (hnone : scan (x ++ y) = none) : scan x = none := by
  cases hscan : scan x with
  | none => rfl
  | some parts =>
      obtain ⟨read, hx, -, hread⟩ := h hscan
      rw [hx, List.append_assoc, hread] at hnone
      cases hnone

/-- The text may go on differently behind what a scanner reads, or end there. -/
theorem SelfDelimiting.read (h : SelfDelimiting scan) {x rest : Text} {a : α}
    (hscan : scan (x ++ rest) = some (a, rest)) (other : Text) :
    scan (x ++ other) = some (a, other) := by
  obtain ⟨read, hx, -, hread⟩ := h hscan
  rw [List.append_cancel_right hx]
  exact hread other

theorem SelfDelimiting.cut (h : SelfDelimiting scan) {x rest : Text} {a : α}
    (hscan : scan (x ++ rest) = some (a, rest)) : scan x = some (a, []) := by
  have hend := h.read hscan []
  rwa [List.append_nil] at hend

end SelfDelimiting

section Words

theorem Text.after?_append {word x : Text} (h : word.length ≤ x.length) (y : Text) :
    Text.after? word (x ++ y) = (Text.after? word x).map (· ++ y) := by
  induction word generalizing x with
  | nil => rfl
  | cons w word ih =>
      cases x with
      | nil => simp at h
      | cons c x =>
          simp only [List.length_cons, Nat.add_le_add_iff_right] at h
          by_cases hc : w = c
          · simp [Text.after?, hc, ih h]
          · simp [Text.after?, hc]

theorem Text.splitAt?_of_after? {word cs rest : Text} (h : Text.after? word cs = some rest) :
    Text.splitAt? word cs = some ([], rest) := by
  cases cs with
  | nil => simp [Text.splitAt?, h]
  | cons c cs => simp [Text.splitAt?, h]

/-- The first occurrence of a word stays the first one when other text follows: an earlier one would
have ended no later. -/
theorem Text.splitAt?_read {word before rest : Text}
    (h : Text.splitAt? word (before ++ word ++ rest) = some (before, rest)) (other : Text) :
    Text.splitAt? word (before ++ word ++ other) = some (before, other) := by
  induction before with
  | nil => exact Text.splitAt?_of_after? (Text.after?_eq_some_iff.2 rfl)
  | cons c before ih =>
      have hlength : word.length ≤ (c :: before ++ word).length := by
        rw [List.length_append]
        exact Nat.le_add_left _ _
      have hsplit : ∀ tail, Text.after? word (c :: before ++ word ++ tail) = none →
          Text.splitAt? word (c :: before ++ word ++ tail) =
            (Text.splitAt? word (before ++ word ++ tail)).map
              fun parts => (c :: parts.1, parts.2) := by
        intro tail hnone
        simp only [List.cons_append] at hnone ⊢
        rw [Text.splitAt?, hnone]
      have hnone : Text.after? word (c :: before ++ word ++ rest) = none := by
        cases hafter : Text.after? word (c :: before ++ word ++ rest) with
        | none => rfl
        | some tail =>
            rw [Text.splitAt?_of_after? hafter] at h
            cases h
      have hword : Text.after? word (c :: before ++ word) = none := by
        rw [Text.after?_append hlength] at hnone
        simpa using hnone
      have hother : Text.after? word (c :: before ++ word ++ other) = none := by
        rw [Text.after?_append hlength, hword]
        rfl
      have htail : Text.splitAt? word (before ++ word ++ rest) = some (before, rest) := by
        rw [hsplit rest hnone] at h
        simpa using h
      rw [hsplit other hother, ih htail]
      rfl

theorem selfDelimiting_splitAt? {word : Text} (hword : word ≠ []) :
    SelfDelimiting (Text.splitAt? word) := by
  intro cs before rest h
  have hcs := Text.splitAt?_eq h
  rw [hcs] at h
  exact ⟨before ++ word, hcs, by simp [hword], Text.splitAt?_read h⟩

/-- A scanner that goes on behind a word and the blanks that follow it. -/
theorem SelfDelimiting.afterWord {α : Type} {scan : Text → Option (α × Text)}
    (h : SelfDelimiting scan) (word : Text) :
    SelfDelimiting fun cs => (afterWord? word cs).bind scan := by
  intro cs a rest hscan
  obtain ⟨middle, hmiddle, hscan⟩ := Option.bind_eq_some_iff.1 hscan
  obtain ⟨tail, htail, rfl⟩ := Option.map_eq_some_iff.1 hmiddle
  obtain ⟨read, rfl, hne, hread⟩ := h.dropWhile isBlank hscan
  refine ⟨word ++ read, ?_, by simp [hne], fun other => ?_⟩
  · rw [List.append_assoc, Text.after?_eq_some_iff.1 htail]
  · have hword : Text.after? word (word ++ read ++ other) = some (read ++ other) :=
      Text.after?_eq_some_iff.2 (List.append_assoc _ _ _)
    simp only [afterWord?, hword, Option.map_some, Option.bind_some]
    exact hread other

end Words

section Groups

/-- A scanner walks through the content of a group and stops at the next character, whatever comes
behind it. -/
theorem selfDelimiting_splitGroupFrom (d : Delimiters) (depth : Nat) (quotes : QuoteState) :
    SelfDelimiting (splitGroupFrom d depth quotes) := by
  intro cs content rest h
  obtain ⟨close, hclose, rfl, hwalk⟩ :=
    Delimiters.walk?_of_splitGroupFrom ⟨depth, quotes⟩ h
  refine ⟨content ++ [close], by simp, by simp, fun other => ?_⟩
  rw [List.append_assoc]
  exact Delimiters.splitGroupFrom_of_walk? hwalk hclose other

theorem selfDelimiting_splitGroup (d : Delimiters) : SelfDelimiting (splitGroup d) :=
  selfDelimiting_splitGroupFrom d 0 .outside

theorem selfDelimiting_splitBraces : SelfDelimiting splitBraces := by
  intro cs content rest h
  unfold splitBraces at h
  split at h
  · exact (selfDelimiting_splitGroup .braces h).cons (f := id) fun tail => by simp [splitBraces]
  · cases h

theorem selfDelimiting_splitParens : SelfDelimiting splitParens := by
  intro cs content rest h
  unfold splitParens at h
  split at h
  · exact (selfDelimiting_splitGroup .parens h).cons (f := id) fun tail => by simp [splitParens]
  · cases h

theorem selfDelimiting_splitBody : SelfDelimiting splitBody :=
  selfDelimiting_splitBraces.dropWhile isSpace

/-- A group behind which some text is left has been closed. -/
theorem groupText_read {d : Delimiters} {cs : Text} (h : afterGroup d cs ≠ []) (other : Text) :
    groupText d (groupText d cs ++ other) = groupText d cs ∧
      afterGroup d (groupText d cs ++ other) = other := by
  cases hgroup : splitGroup d cs with
  | none => simp [afterGroup, hgroup] at h
  | some group =>
      obtain ⟨content, rest⟩ := group
      obtain ⟨close, hclose, hcs⟩ := splitGroup_eq hgroup
      have htext : groupText d cs = content ++ [close] := by
        simp [groupText, hgroup, hclose]
      have hread : splitGroup d (content ++ [close] ++ other) = some (content, other) := by
        rw [hcs, List.append_cons] at hgroup
        exact (selfDelimiting_splitGroup d).read hgroup other
      rw [htext, groupText, afterGroup, hread, hclose]
      exact ⟨rfl, rfl⟩

/-- One more character changes nothing but the text behind a group, unless it is the delimiter that
closes the group. -/
theorem splitGroupFrom_concat {d : Delimiters} {c : Char} (hclosing : d.closing ≠ some c)
    (depth : Nat) (quotes : QuoteState) (t : Text) :
    splitGroupFrom d depth quotes (t ++ [c]) =
      (splitGroupFrom d depth quotes t).map fun group => (group.1, group.2 ++ [c]) := by
  induction t generalizing depth quotes with
  | nil =>
      have hlast := Delimiters.splitGroupFrom_cons d ⟨depth, quotes⟩ c []
      cases hstep : d.step? ⟨depth, quotes⟩ c with
      | none => exact absurd (Delimiters.step?_eq_none_iff.1 hstep).2.2.2 hclosing
      | some next =>
          rw [hstep] at hlast
          exact hlast
  | cons b t ih =>
      have hlonger := Delimiters.splitGroupFrom_cons d ⟨depth, quotes⟩ b (t ++ [c])
      have hshorter := Delimiters.splitGroupFrom_cons d ⟨depth, quotes⟩ b t
      simp only at hlonger hshorter
      rw [List.cons_append, hlonger, hshorter]
      cases d.step? ⟨depth, quotes⟩ b with
      | none => rfl
      | some next =>
          simp only
          rw [ih, Option.map_map, Option.map_map]
          rfl

end Groups

section Expressions

/-- An identifier is decided by the character behind it. -/
theorem takeWhile_identifier_stop {cs rest tail : Text} {c : Char}
    (h : afterIdentifier cs = rest ++ c :: tail) (other : Text) :
    (cs.takeWhile isIdentifierChar ++ (rest ++ c :: other)).takeWhile isIdentifierChar =
        cs.takeWhile isIdentifierChar ∧
      afterIdentifier (cs.takeWhile isIdentifierChar ++ (rest ++ c :: other)) =
        rest ++ c :: other := by
  have hrun : ∀ d ∈ cs.takeWhile isIdentifierChar, isIdentifierChar d = true :=
    fun d hd => List.mem_takeWhile_imp hd
  have hstop : ∀ d ∈ (rest ++ c :: other).head?, isIdentifierChar d = false := by
    intro d hd
    apply head?_dropWhile_eq_false isIdentifierChar cs d
    rw [← afterIdentifier, h]
    cases rest <;> simpa using hd
  exact ⟨takeWhile_append_all hrun hstop, dropWhile_append_all hrun hstop⟩

theorem splitAccessors_of_ne {cs : Text} (h : ∀ c ∈ cs.head?, c ≠ '.' ∧ c ≠ '(' ∧ c ≠ '[') :
    splitAccessors cs = ([], cs) := by
  fun_cases splitAccessors cs with
  | case1 cs => exact absurd rfl (h '.' rfl).1
  | case2 cs => exact absurd rfl (h '[' rfl).2.2
  | case3 cs => exact absurd rfl (h '(' rfl).2.1
  | case4 => rfl

/-- Accessors are decided by the character behind them. -/
theorem splitAccessors_stop {cs tail : Text} {c : Char} (h : (splitAccessors cs).2 = c :: tail)
    (other : Text) :
    splitAccessors ((splitAccessors cs).1 ++ c :: other) =
      ((splitAccessors cs).1, c :: other) := by
  have hsplit : ∀ {s : Text}, (splitAccessors s).2 = c :: tail →
      s = (splitAccessors s).1 ++ c :: tail := by
    intro s hs
    rw [← hs, splitAccessors_append]
  fun_induction splitAccessors cs with
  | case1 cs after ih =>
      obtain ⟨htake, hdrop⟩ := takeWhile_identifier_stop (hsplit h) other
      rw [List.cons_append, List.cons_append, List.append_assoc, splitAccessors, htake, hdrop, ih h]
      rfl
  | case2 cs after ih =>
      have hne : afterGroup .brackets cs ≠ [] := by
        rw [hsplit h]
        simp
      obtain ⟨htext, hafter⟩ := groupText_read hne (after.1 ++ c :: other)
      rw [List.cons_append, List.cons_append, List.append_assoc, splitAccessors, htext, hafter,
        ih h]
      rfl
  | case3 cs after ih =>
      have hne : afterGroup .parens cs ≠ [] := by
        rw [hsplit h]
        simp
      obtain ⟨htext, hafter⟩ := groupText_read hne (after.1 ++ c :: other)
      rw [List.cons_append, List.cons_append, List.append_assoc, splitAccessors, htext, hafter,
        ih h]
      rfl
  | case4 cs hdot hbracket hparen =>
      apply splitAccessors_of_ne
      rintro d ⟨⟩
      refine ⟨?_, ?_, ?_⟩
      · rintro rfl
        exact hdot tail h
      · rintro rfl
        exact hparen tail h
      · rintro rfl
        exact hbracket tail h

/-- An expression is decided by the character behind it. -/
theorem splitExpression_stop {cs tail : Text} {c : Char} (h : afterExpression cs = c :: tail)
    (other : Text) :
    splitExpression ((splitExpression cs).1 ++ c :: other) =
      ((splitExpression cs).1, c :: other) := by
  rw [afterExpression] at h
  fun_cases splitExpression cs with
  | case1 => cases h
  | case2 cs =>
      have hrest : afterGroup .parens cs = c :: tail := by
        rw [splitExpression, if_pos rfl] at h
        exact h
      have hne : afterGroup .parens cs ≠ [] := by simp [hrest]
      obtain ⟨htext, hafter⟩ := groupText_read hne (c :: other)
      rw [List.cons_append, splitExpression, if_pos rfl, htext, hafter]
  | case3 cs =>
      have hrest : afterGroup .brackets cs = c :: tail := by
        rw [splitExpression, if_neg (by decide), if_pos rfl] at h
        exact h
      have hne : afterGroup .brackets cs ≠ [] := by simp [hrest]
      obtain ⟨htext, hafter⟩ := groupText_read hne (c :: other)
      rw [List.cons_append, splitExpression, if_neg (by decide), if_pos rfl, htext, hafter]
  | case4 d cs hparen hbracket hstart after =>
      have hrest : after.2 = c :: tail := by
        rw [splitExpression, if_neg hparen, if_neg hbracket, if_pos hstart] at h
        exact h
      have hcs : afterIdentifier cs = after.1 ++ c :: tail := by
        rw [← hrest, splitAccessors_append]
      obtain ⟨htake, hdrop⟩ := takeWhile_identifier_stop hcs other
      rw [List.cons_append, List.cons_append, List.append_assoc, splitExpression, if_neg hparen,
        if_neg hbracket, if_pos hstart, htake, hdrop, splitAccessors_stop hrest]
      rfl
  | case5 d cs hparen hbracket hstart =>
      rw [splitExpression, if_neg hparen, if_neg hbracket, if_neg hstart] at h
      cases h
      rw [List.nil_append, splitExpression, if_neg hparen, if_neg hbracket, if_neg hstart]

variable {α β : Type} {scan : Text → Option (α × Text)} {first : Text → Option (β × Text)}

/-- A scanner that takes one character and an expression, and goes on with another one. -/
theorem Delimits.expression {f : Text → α → β} {c : Char} {cs rest : Text} {a : α}
    (h : Delimits scan (afterExpression cs) a rest)
    (hfirst : ∀ tail, first (c :: tail) = (scan (afterExpression tail)).map
      fun parts => (f (splitExpression tail).1 parts.1, parts.2)) :
    Delimits first (c :: cs) (f (splitExpression cs).1 a) rest := by
  obtain ⟨read, hcs, hne, hread⟩ := h
  obtain ⟨d, read, rfl⟩ := List.exists_cons_of_ne_nil hne
  refine ⟨c :: ((splitExpression cs).1 ++ d :: read), ?_, List.cons_ne_nil _ _, fun other => ?_⟩
  · have hsplit := splitExpression_append cs
    rw [← afterExpression, hcs] at hsplit
    rw [List.cons_append, List.append_assoc, hsplit]
  · have hother := splitExpression_stop hcs (read ++ other)
    rw [List.cons_append, List.append_assoc, List.cons_append, hfirst, afterExpression, hother,
      ← List.cons_append, hread]
    rfl

end Expressions

section Tags

theorem selfDelimiting_splitQuoted? (quote : Char) :
    SelfDelimiting (Attribute.splitQuoted? quote) := by
  intro cs value rest h
  fun_induction Attribute.splitQuoted? quote cs generalizing value with
  | case1 => cases h
  | case2 cs =>
      cases h
      exact ⟨[quote], rfl, List.cons_ne_nil _ _, fun other => by simp [Attribute.splitQuoted?]⟩
  | case3 cs hquote ih =>
      obtain ⟨⟨inner, tail⟩, hi, he⟩ := Option.map_eq_some_iff.1 h
      cases he
      exact (ih hi).expression (f := fun expression inner => sigil :: expression ++ inner)
        fun tail => by rw [Attribute.splitQuoted?, if_neg hquote, if_pos rfl]
  | case4 c cs hquote hsigil ih =>
      obtain ⟨⟨inner, tail⟩, hi, he⟩ := Option.map_eq_some_iff.1 h
      cases he
      exact (ih hi).cons fun tail => by
        rw [Attribute.splitQuoted?, if_neg hquote, if_neg hsigil]

theorem selfDelimiting_splitTag? (state : Option Char) : SelfDelimiting (splitTag? state) := by
  intro cs inner rest h
  fun_induction splitTag? state cs generalizing inner with
  | case1 => cases h
  | case2 quote cs ih =>
      obtain ⟨⟨inner, tail⟩, hi, he⟩ := Option.map_eq_some_iff.1 h
      cases he
      exact (ih hi).cons fun tail => by rw [splitTag?, if_pos rfl]
  | case3 quote cs hquote ih =>
      obtain ⟨⟨inner, tail⟩, hi, he⟩ := Option.map_eq_some_iff.1 h
      cases he
      exact (ih hi).expression (f := fun expression inner => sigil :: expression ++ inner)
        fun tail => by rw [splitTag?, if_neg hquote, if_pos rfl]
  | case4 quote c cs hquote hsigil ih =>
      obtain ⟨⟨inner, tail⟩, hi, he⟩ := Option.map_eq_some_iff.1 h
      cases he
      exact (ih hi).cons fun tail => by rw [splitTag?, if_neg hquote, if_neg hsigil]
  | case5 c cs hquote ih =>
      obtain ⟨⟨inner, tail⟩, hi, he⟩ := Option.map_eq_some_iff.1 h
      cases he
      exact (ih hi).cons fun tail => by rw [splitTag?, if_pos hquote]
  | case6 cs hquote ih =>
      obtain ⟨⟨inner, tail⟩, hi, he⟩ := Option.map_eq_some_iff.1 h
      cases he
      exact (ih hi).expression (f := fun expression inner => sigil :: expression ++ inner)
        fun tail => by rw [splitTag?, if_neg hquote, if_pos rfl]
  | case7 cs =>
      cases h
      exact ⟨['>'], rfl, List.cons_ne_nil _ _, fun other => by
        rw [List.cons_append, splitTag?, if_neg (by decide), if_neg (by decide), if_pos rfl]
        rfl⟩
  | case8 c cs hquote hsigil hend ih =>
      obtain ⟨⟨inner, tail⟩, hi, he⟩ := Option.map_eq_some_iff.1 h
      cases he
      exact (ih hi).cons fun tail => by
        rw [splitTag?, if_neg hquote, if_neg hsigil, if_neg hend]

end Tags

end RazorLayout
