import RazorLayout.Proofs.Forest.Lines

/-!
# Shifted values

The layout writes every line of a printed tag behind an indentation: also the lines of a value,
which belong to the value.  So such a value moves to the right.

* `Text.shift` puts a lead in front of all lines but the first;
* `Tag.shift` does so to the values of a tag.

Results.

* `Tag.Spells.shift` and `Tag.spells_print`: the printed tag behind an indentation spells the
  shifted tag.
* `Tag.shift_of_isClean` and `Tag.isClean_of_shift_shift`: a shift changes nothing exactly where all
  values stand on one line.
-/

namespace RazorLayout

namespace Text

section Shifting

/-- The text with a lead in front of all its lines but the first. -/
def shift (lead t : Text) : Text :=
  t.flatMap fun c => if c = '\n' then '\n' :: lead else [c]

variable {lead : Text}

theorem shift_append (s t : Text) : shift lead (s ++ t) = shift lead s ++ shift lead t :=
  List.flatMap_append

theorem shift_cons {c : Char} (hc : c ≠ '\n') (t : Text) :
    shift lead (c :: t) = c :: shift lead t := by
  simp [shift, hc]

theorem shift_newline (t : Text) : shift lead ('\n' :: t) = '\n' :: (lead ++ shift lead t) := by
  simp [shift]

theorem shift_of_isLine {t : Text} (h : IsLine t) : shift lead t = t := by
  induction t with
  | nil => rfl
  | cons c t ih =>
      obtain ⟨hc, ht⟩ := isLine_cons.1 h
      rw [shift_cons hc, ih ht]

@[simp] theorem shift_nil (t : Text) : shift [] t = t := by
  have hsame : (fun c : Char => if c = '\n' then ['\n'] else [c]) = fun c => [c] := by
    funext c
    split
    · rename_i hc
      rw [hc]
    · rfl
  simp [shift, hsame]

theorem mem_shift {c : Char} {t : Text} (h : c ∈ shift lead t) : c ∈ t ∨ c ∈ lead := by
  obtain ⟨d, hd, hc⟩ := List.mem_flatMap.1 h
  split at hc
  · rename_i hline
    rcases List.mem_cons.1 hc with rfl | hc
    · exact Or.inl (hline ▸ hd)
    · exact Or.inr hc
  · rw [List.mem_singleton.1 hc]
    exact Or.inl hd

theorem IsGap.shift {g : Text} (hg : IsGap g) (hlead : IsGap lead) : IsGap (shift lead g) := by
  intro c hc
  rcases mem_shift hc with hc | hc
  · exact hg c hc
  · exact hlead c hc

theorem shift_ne_nil {t : Text} (h : t ≠ []) : shift lead t ≠ [] := by
  obtain ⟨c, t, rfl⟩ := List.exists_cons_of_ne_nil h
  by_cases hc : c = '\n'
  · simp [hc, shift_newline]
  · simp [shift_cons hc]

/-- All lines behind a lead. -/
theorem unlines_map_append (lead t : Text) :
    unlines ((lines t).map (lead ++ ·)) = lead ++ shift lead t := by
  induction t with
  | nil => rfl
  | cons c t ih =>
      by_cases hc : c = '\n'
      · rw [hc, lines, if_pos rfl, List.map_cons, shift_newline, ← ih]
        obtain ⟨first, rest, hlines⟩ := List.exists_cons_of_ne_nil (lines_ne_nil t)
        rw [hlines]
        simp [unlines]
      · rw [lines, if_neg hc, shift_cons hc]
        obtain ⟨first, rest, hlines⟩ := List.exists_cons_of_ne_nil (lines_ne_nil t)
        rw [hlines] at ih ⊢
        -- The character goes between the lead and the rest of the first line.
        cases rest with
        | nil =>
            simp only [List.map_cons, List.map_nil, unlines, consLine] at ih ⊢
            rw [List.append_cancel_left ih]
        | cons next rest =>
            simp only [List.map_cons, unlines, consLine, List.append_assoc] at ih ⊢
            rw [← List.append_cancel_left ih]
            rfl

/-- The lines of a shifted text, the lead in front of all but the first. -/
theorem exists_lines_shift (hlead : IsLine lead) (t : Text) :
    ∃ first rest, lines t = first :: rest ∧
      lines (shift lead t) = first :: rest.map (lead ++ ·) := by
  induction t with
  | nil => exact ⟨[], [], rfl, rfl⟩
  | cons c t ih =>
      obtain ⟨first, rest, hlines, hshift⟩ := ih
      by_cases hc : c = '\n'
      · obtain ⟨next, more, hnext, hbehind⟩ := exists_lines_isLine_append hlead (shift lead t)
        rw [hshift] at hnext
        obtain ⟨rfl, rfl⟩ := List.cons.inj hnext
        refine ⟨[], first :: rest, ?_, ?_⟩
        · rw [lines, if_pos hc, hlines]
        · rw [hc, shift_newline, lines, if_pos rfl, hbehind]
          rfl
      · refine ⟨c :: first, rest, ?_, ?_⟩
        · rw [lines, if_neg hc, hlines, consLine]
        · rw [shift_cons hc, lines, if_neg hc, hshift, consLine]

theorem IsFinished.shift {t : Text} (ht : IsFinished t) (hlead : IsLine lead) :
    IsFinished (shift lead t) := by
  obtain ⟨first, rest, hlines, hshift⟩ := exists_lines_shift hlead t
  rw [IsFinished, hlines] at ht
  obtain ⟨hfirst, hrest⟩ := List.forall_mem_cons.1 ht
  rw [IsFinished, hshift]
  refine List.forall_mem_cons.2 ⟨hfirst, ?_⟩
  intro line hline
  obtain ⟨source, hsource, rfl⟩ := List.mem_map.1 hline
  obtain ⟨c, hlast, hc⟩ := hrest source hsource
  refine ⟨c, ?_, hc⟩
  rw [List.getLast?_append, hlast]
  rfl

theorem length_shift (lead t : Text) :
    (shift lead t).length = t.length + t.count '\n' * lead.length := by
  induction t with
  | nil => simp [shift]
  | cons c t ih =>
      by_cases hc : c = '\n'
      · rw [hc, shift_newline, List.count_cons_self, List.length_cons, List.length_append, ih,
          List.length_cons, Nat.succ_mul]
        omega
      · rw [shift_cons hc, List.count_cons_of_ne hc, List.length_cons, List.length_cons, ih]
        omega

theorem count_shift (hlead : IsLine lead) (t : Text) :
    (shift lead t).count '\n' = t.count '\n' := by
  induction t with
  | nil => rfl
  | cons c t ih =>
      by_cases hc : c = '\n'
      · rw [hc, shift_newline, List.count_cons_self, List.count_cons_self, List.count_append, ih,
          List.count_eq_zero.2 hlead, Nat.zero_add]
      · rw [shift_cons hc, List.count_cons_of_ne hc, List.count_cons_of_ne hc, ih]

/-- A text of several lines is longer after every shift. -/
theorem isLine_of_shift_shift {t : Text} (hlead : IsLine lead) (hne : lead ≠ [])
    (h : shift lead (shift lead t) = shift lead t) : IsLine t := by
  have hlength := congrArg List.length h
  rw [length_shift lead (shift lead t), count_shift hlead] at hlength
  have hzero : t.count '\n' * lead.length = 0 := by
    omega
  rcases Nat.mul_eq_zero.1 hzero with hcount | hempty
  · exact List.count_eq_zero.1 hcount
  · exact absurd (List.length_eq_zero_iff.1 hempty) hne

end Shifting

end Text

section Tags

/-- The attribute with its value shifted. -/
def Attribute.shift (lead : Text) (a : Attribute) : Attribute :=
  { a with value := a.value.map (Text.shift lead) }

/-- The tag with its values shifted. -/
def Tag.shift (lead : Text) (tag : Tag) : Tag :=
  { tag with attributes := tag.attributes.map (Attribute.shift lead) }

variable {lead : Text}

theorem isValueChar_of_isSpace {c : Char} (h : isSpace c = true) : isValueChar c = true := by
  have hne : ∀ {d : Char}, isSpace d = false → c ≠ d := by
    rintro d hd rfl
    rw [h] at hd
    cases hd
  simp [isValueChar, hne (d := '"') rfl, hne (d := '\'') rfl, hne (d := '\\') rfl,
    hne (d := '@') rfl]

/-- A shifted attribute is readable, and it is rendered as the shifted text. -/
theorem Attribute.shift_cases {a : Attribute} (h : a.isReadable = true) (hlead : Text.IsGap lead) :
    (a.shift lead).isReadable = true ∧ (a.shift lead).render = Text.shift lead a.render := by
  obtain ⟨hname, ha | ⟨value, quote, ha, hquote, hvalue⟩⟩ := isReadable_cases h
  · have hshift : a.shift lead = a := by
      rw [ha]
      rfl
    rw [hshift]
    refine ⟨h, ?_⟩
    rw [ha, render_bare, Text.shift_of_isLine (isLine_attributeName hname)]
  · have hshift : a.shift lead =
        { name := a.name, value := some (Text.shift lead value), quote := some [quote] } := by
      rw [ha]
      rfl
    have hquoteNe : quote ≠ '\n' := by
      rintro rfl
      exact absurd hquote (by decide)
    constructor
    · have hchars : ∀ c ∈ Text.shift lead value, isValueChar c = true := by
        intro c hc
        rcases Text.mem_shift hc with hc | hc
        · exact hvalue c hc
        · exact isValueChar_of_isSpace (hlead c hc)
      have hquotes : quote = '"' ∨ quote = '\'' := by
        simpa [isQuote] using hquote
      rw [hshift, isReadable, Bool.and_eq_true]
      refine ⟨hname, ?_⟩
      rcases hquotes with rfl | rfl <;> simpa using hchars
    · rw [hshift, render_quoted, ha, render_quoted, Text.shift_append,
        Text.shift_of_isLine (isLine_attributeName hname), Text.shift_cons (by decide),
        Text.shift_cons hquoteNe, Text.shift_append, Text.shift_cons hquoteNe]
      rfl

theorem Tag.isRegular_shift {tag : Tag} (h : tag.isRegular = true) (hlead : Text.IsGap lead)
    (hline : Text.IsLine lead) : (tag.shift lead).isRegular = true := by
  obtain ⟨hname, hattributes⟩ := isRegular_cases h
  rw [isRegular, Bool.and_eq_true, List.all_eq_true]
  refine ⟨hname, ?_⟩
  intro a ha
  obtain ⟨b, hb, rfl⟩ := List.mem_map.1 ha
  obtain ⟨hreadable, hfinished⟩ := Attribute.isRegular_iff.1 (hattributes b hb)
  obtain ⟨hshift, hrender⟩ := Attribute.shift_cases hreadable hlead
  refine Attribute.isRegular_iff.2 ⟨hshift, ?_⟩
  rw [hrender]
  exact hfinished.shift hline

theorem SpellsAttributes.shift {attributes : List Attribute} {inner : Text}
    (h : SpellsAttributes attributes inner) (hreadable : ∀ a ∈ attributes, a.isReadable = true)
    (hlead : Text.IsGap lead) :
    SpellsAttributes (attributes.map (Attribute.shift lead)) (Text.shift lead inner) := by
  induction attributes generalizing inner with
  | nil =>
      rw [show inner = [] from h]
      rfl
  | cons a attributes ih =>
      obtain ⟨ha, hattributes⟩ := List.forall_mem_cons.1 hreadable
      obtain ⟨g, rest, rfl, hg, hne, hrest⟩ := h
      refine ⟨Text.shift lead g, Text.shift lead rest, ?_, hg.shift hlead, Text.shift_ne_nil hne,
        ih hrest hattributes⟩
      rw [Text.shift_append, Text.shift_append, (Attribute.shift_cases ha hlead).2]

/-- The shifted spelling of a tag spells the shifted tag. -/
theorem Tag.Spells.shift {tag : Tag} {ending : TagEnd} {t : Text} (h : tag.Spells ending t)
    (hreadable : tag.isReadable = true) (hlead : Text.IsGap lead) :
    (tag.shift lead).Spells ending (Text.shift lead t) := by
  obtain ⟨inner, gap, rfl, hinner, hgap⟩ := h
  obtain ⟨hname, hattributes⟩ := isReadable_cases hreadable
  obtain ⟨-, -, -, -, hchars⟩ := isTagName_cases hname
  refine ⟨Text.shift lead inner, Text.shift lead gap, ?_, hinner.shift hattributes hlead,
    hgap.shift hlead⟩
  have hopening : Text.IsLine ('<' :: tag.name) :=
    isLine_cons.2 ⟨by decide, isLine_name hchars⟩
  rw [Text.shift_append, Text.shift_append, Text.shift_append, Text.shift_of_isLine hopening,
    Text.shift_of_isLine (isLine_stackedText ending)]
  rfl

theorem spellsAttributes_stacked (config : Config) (attributes : List Attribute) :
    SpellsAttributes attributes
      ((attributes.map fun a => config.unit ++ a.render).flatMap fun line => '\n' :: line) := by
  induction attributes with
  | nil => rfl
  | cons a attributes ih =>
      refine ⟨'\n' :: config.unit, _, ?_, Text.isGap_cons.2 ⟨by decide, Text.isGap_spaces _⟩,
        by simp, ih⟩
      simp

/-- A printed tag is a spelling of the tag. -/
theorem Tag.spells_print {tag : Tag} (hname : isTagName tag.name = true) (config : Config)
    (width : Nat) (ending : TagEnd) : tag.Spells ending (tag.print config width ending) := by
  obtain ⟨c, cs, hcons, -⟩ := isTagName_cases hname
  rw [print, if_neg (by simp [hcons])]
  split
  · refine ⟨_, ['\n'], ?_, spellsAttributes_stacked config tag.attributes,
      Text.isGap_cons.2 ⟨by decide, Text.isGap_nil⟩⟩
    rw [stacked, List.cons_append, unlines_cons, List.flatMap_append]
    simp
  · exact spells_inline tag ending

theorem Tag.shift_eq_self {tag : Tag}
    (h : ∀ a ∈ tag.attributes, ∀ value, a.value = some value → Text.shift lead value = value) :
    tag.shift lead = tag := by
  have hattribute : ∀ a ∈ tag.attributes, a.shift lead = id a := by
    intro a ha
    cases hvalue : a.value with
    | none =>
        rw [Attribute.shift, hvalue, Option.map_none, ← hvalue]
        rfl
    | some value =>
        rw [Attribute.shift, hvalue, Option.map_some, h a ha value hvalue, ← hvalue]
        rfl
  rw [shift, List.map_congr_left hattribute, List.map_id]

theorem Tag.shift_of_isClean {tag : Tag} (h : tag.isClean = true) : tag.shift lead = tag := by
  refine shift_eq_self ?_
  intro a ha value hvalue
  have hclean := (isClean_cases h).2 a ha
  rw [Attribute.isClean, Bool.and_eq_true, hvalue] at hclean
  exact Text.shift_of_isLine (by simpa [Text.isMultiline, Text.IsLine] using hclean.2)

theorem Tag.shift_nil (tag : Tag) : tag.shift [] = tag :=
  shift_eq_self fun _ _ value _ => Text.shift_nil value

/-- A value on several lines is different after every shift. -/
theorem Tag.isClean_of_shift_shift {tag : Tag} (h : tag.isReadable = true)
    (hlead : Text.IsLine lead) (hne : lead ≠ [])
    (hshift : (tag.shift lead).shift lead = tag.shift lead) : tag.isClean = true := by
  obtain ⟨hname, hattributes⟩ := isReadable_cases h
  rw [isClean, Bool.and_eq_true, List.all_eq_true]
  refine ⟨hname, ?_⟩
  intro a ha
  have hsame : (a.shift lead).shift lead = a.shift lead := by
    have hmaps := congrArg Tag.attributes hshift
    simp only [Tag.shift, List.map_map] at hmaps
    exact List.map_inj_left.1 hmaps a ha
  rw [Attribute.isClean, Bool.and_eq_true]
  refine ⟨hattributes a ha, ?_⟩
  have hvalues := congrArg Attribute.value hsame
  cases hvalue : a.value with
  | none => rfl
  | some value =>
      simp only [Attribute.shift, hvalue, Option.map_some, Option.some.injEq] at hvalues
      have hline := Text.isLine_of_shift_shift hlead hne hvalues
      simpa [Text.isMultiline, Text.IsLine] using hline

theorem Attribute.length_render_le (lead : Text) (a : Attribute) :
    a.render.length ≤ (a.shift lead).render.length := by
  cases hvalue : a.value with
  | none => simp [shift, render, hvalue]
  | some value =>
      have hlength := Text.length_shift lead value
      simp [shift, render, hvalue, quoteText]
      omega

/-- A shifted tag is at least as wide, so it stays stacked. -/
theorem Tag.isStacked_shift {tag : Tag} {config : Config} {width : Nat} {ending : TagEnd}
    (h : tag.isStacked config width ending = true) :
    (tag.shift lead).isStacked config width ending = true := by
  have htotal : ∀ attributes : List Attribute,
      total (attributes.map fun a => 1 + a.render.length) ≤
        total ((attributes.map (Attribute.shift lead)).map fun a => 1 + a.render.length) := by
    intro attributes
    induction attributes with
    | nil => exact Nat.le_refl _
    | cons a attributes ih =>
        have hrender := Attribute.length_render_le lead a
        simp only [List.map_cons, total_cons]
        omega
  have hwidth : tag.inlineWidth ending ≤ (tag.shift lead).inlineWidth ending := by
    have hattributes := htotal tag.attributes
    simp only [inlineWidth, shift]
    omega
  simp only [isStacked, Bool.and_eq_true, Bool.or_eq_true, decide_eq_true_eq] at h ⊢
  obtain ⟨hsome, hmany | ⟨hpos, hwide⟩⟩ := h
  · exact ⟨by simpa [shift] using hsome, Or.inl (by simpa [shift] using hmany)⟩
  · exact ⟨by simpa [shift] using hsome, Or.inr ⟨hpos, Nat.lt_of_lt_of_le hwide
      (Nat.add_le_add_left hwidth width)⟩⟩

end Tags

end RazorLayout
