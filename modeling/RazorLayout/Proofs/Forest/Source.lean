import RazorLayout.Proofs.Forest.Spelling

/-!
# The one-line form of a forest

Results.  `Forest.isLine_source`: the one-line form of a clean forest has no line feed.
`Forest.spells_source`: the one-line form of a regular forest spells the forest, at every depth.
-/

namespace RazorLayout

section Lines

theorem Tag.isLine_stem {tag : Tag} (h : tag.isClean = true) : Text.IsLine tag.stem := by
  obtain ⟨hname, hattributes⟩ := isClean_cases h
  obtain ⟨-, -, -, -, hchars⟩ := isTagName_cases hname
  have hinner : Text.IsLine (tag.attributes.flatMap fun a => ' ' :: a.render) := by
    intro hmem
    obtain ⟨a, ha, hline⟩ := List.mem_flatMap.1 hmem
    exact isLine_cons.2 ⟨by decide, Attribute.isLine_render (hattributes a ha)⟩ hline
  exact isLine_append.2 ⟨isLine_cons.2 ⟨by decide, isLine_name hchars⟩, hinner⟩

theorem isLine_parenthesised {condition : Text} (h : isCondition condition = true) :
    Text.IsLine (parenthesised condition) := by
  have hline : Text.IsLine condition :=
    Text.not_mem_of_forall (fun c hc => isConditionChar_of_mem h hc) (by decide)
  exact isLine_append.2 ⟨isLine_cons.2 ⟨by decide, hline⟩, by decide⟩

theorem Spacing.isLine_conditionText (spacing : Spacing) {condition : Option Text}
    (h : condition.all isCondition = true) : Text.IsLine (spacing.conditionText condition) := by
  cases condition with
  | none => exact isLine_spaces _
  | some condition =>
      exact isLine_append.2 ⟨isLine_append.2 ⟨isLine_spaces _, isLine_parenthesised h⟩,
        isLine_spaces _⟩

theorem ClauseHead.isLine_words (head : ClauseHead) : Text.IsLine head.words := by
  cases head <;> rw [words] <;> decide

theorem FlowHead.isLine_words {head : FlowHead} (h : head.isClean = true) :
    Text.IsLine head.words := by
  have hkeyword : Text.IsLine (sigil :: head.keyword.text) := by
    cases head.keyword <;> decide
  rcases words_cases h with hwords | ⟨name, hid, hwords⟩
  · rw [hwords]
    exact hkeyword
  · rw [hwords]
    exact isLine_append.2 ⟨hkeyword,
      isLine_cons.2 ⟨by decide, isLine_name (isNameChar_of_isIdentifier hid)⟩⟩

variable (spacing : Spacing)

mutual

theorem Forest.isLine_source {F : Forest} (h : F.isClean = true) :
    Text.IsLine (F.source spacing) := by
  match F with
  | .nil => exact isLine_nil
  | .text content rest =>
      obtain ⟨hleaf, -, hrest⟩ := Forest.isClean_text.1 h
      have hcontent : Text.IsLine content :=
        Text.not_mem_of_forall (isLeafText_cases hleaf).2 (by decide)
      exact isLine_append.2 ⟨hcontent, Forest.isLine_source hrest⟩
  | .element tag children rest =>
      obtain ⟨htag, -, -, hchildren, hrest⟩ := Forest.isClean_element.1 h
      have hclosing := isLine_closingTag (Tag.isClean_cases htag).1
      simp only [Forest.source, isLine_append, isLine_cons]
      exact ⟨⟨⟨Tag.isLine_stem htag, by decide, Forest.isLine_source hchildren⟩, hclosing⟩,
        Forest.isLine_source hrest⟩
  | .selfClosing tag rest =>
      obtain ⟨htag, hrest⟩ := Forest.isClean_selfClosing.1 h
      simp only [Forest.source, isLine_append, isLine_cons]
      exact ⟨⟨Tag.isLine_stem htag, isLine_spaces _⟩, by decide, by decide,
        Forest.isLine_source hrest⟩
  | .flow head body chain rest =>
      obtain ⟨hhead, hbody, hchain, hrest⟩ := Forest.isClean_flow.1 h
      obtain ⟨-, hcondition, -⟩ := FlowHead.isClean_cases hhead
      simp only [Forest.source, isLine_append, isLine_cons]
      exact ⟨⟨⟨⟨FlowHead.isLine_words hhead, spacing.isLine_conditionText hcondition⟩, by decide,
        Forest.isLine_source hbody⟩, by decide, Chain.isLine_source hchain⟩,
        Forest.isLine_source hrest⟩

theorem Chain.isLine_source {chain : Chain} (h : chain.isClean = true) :
    Text.IsLine (chain.source spacing) := by
  match chain with
  | .nil => exact isLine_nil
  | .clause head body rest =>
      obtain ⟨hhead, hbody, hrest⟩ := Chain.isClean_clause.1 h
      simp only [Chain.source, isLine_append, isLine_cons]
      exact ⟨⟨⟨⟨isLine_spaces _, ClauseHead.isLine_words head⟩,
        spacing.isLine_conditionText hhead⟩, by decide, Forest.isLine_source hbody⟩, by decide,
        Chain.isLine_source hrest⟩

end

end Lines

section Spelling

variable {spacing : Spacing} {n : Nat}

theorem spellsAttributes_flatMap (attributes : List Attribute) :
    SpellsAttributes attributes (attributes.flatMap fun a => ' ' :: a.render) := by
  induction attributes with
  | nil => rfl
  | cons a attributes ih =>
      exact ⟨[' '], _, by simp, by simp [Text.IsGap]; decide, by simp, ih⟩

theorem Tag.spells_stem (tag : Tag) (ending : TagEnd) {g : Text} (hg : Text.IsGap g) :
    tag.Spells ending (tag.stem ++ g ++ ending.stackedText) :=
  ⟨_, g, rfl, spellsAttributes_flatMap tag.attributes, hg⟩

theorem Spacing.spells_conditionText (spacing : Spacing) (condition : Option Text) :
    SpellsCondition condition (spacing.conditionText condition) := by
  cases condition with
  | none => exact Text.isGap_spaces _
  | some condition => exact ⟨_, _, rfl, Text.isGap_spaces _, Text.isGap_spaces _⟩

/-- A spelling on one line is a spelling by its rows. -/
theorem Forest.Spells.of_rows {F : Forest} {s t : Text} (hregular : F.isRegular = true)
    (hline : Text.IsLine s) (h : F.Spells spacing n s) (hrows : Text.rows t = Text.rows s) :
    F.Spells spacing n t := by
  obtain ⟨g, hg, hs⟩ := Text.exists_gap s
  have hline : Text.IsLine (afterSpaces s) := by
    rw [hs] at hline
    exact (isLine_append.1 hline).2
  have htight : F.Spells spacing n (afterSpaces s) :=
    h.regap hregular (Text.isTight_afterSpaces s).symm
  rw [← Text.rows_afterSpaces t, ← Text.rows_afterSpaces s, Text.rows_of_isLine hline] at hrows
  by_cases hnil : afterSpaces s = []
  · rw [hnil] at hrows htight
    have hgap : Text.IsGap (afterSpaces t) := Text.isGap_of_rows_eq_nil hrows
    have ht : afterSpaces t = [] :=
      hgap.eq_nil_of_isTight (t := []) (by rw [List.append_nil]; exact Text.isTight_afterSpaces t)
    exact htight.regap hregular ht.symm
  · rw [Text.row_of_isTight hnil (Text.isTight_afterSpaces s)] at hrows
    obtain ⟨gap, rest, ht, hgap, hrest, hmore, -⟩ :=
      Text.exists_row (Text.isTight_afterSpaces t) hrows
    have hrestNil : rest = [] :=
      (Text.isGap_of_rows_eq_nil hmore).eq_nil_of_isTight (t := []) (by rwa [List.append_nil])
    have hspells := htight.append_gap hregular hgap
    refine hspells.regap hregular ?_
    rw [← Text.isTight_afterSpaces t]
    conv => rhs; rw [ht, hrestNil, List.append_nil]

/-- No row of a spelling on one line is blank. -/
theorem Forest.Spells.solid_rows {F : Forest} {s : Text} (hregular : F.isRegular = true)
    (hline : Text.IsLine s) (h : F.Spells spacing n s) :
    ∀ row ∈ Text.rows s, Text.isBlankText row = false := by
  intro row hrow
  rw [Text.rows_of_isLine hline, Text.row, solid] at hrow
  obtain ⟨hmem, hne⟩ := List.mem_filter.1 hrow
  obtain rfl := List.mem_singleton.1 hmem
  obtain ⟨g, hg, hs⟩ := Text.exists_gap s
  have htight : F.Spells spacing n (afterSpaces s) :=
    h.regap hregular (Text.isTight_afterSpaces s).symm
  apply htight.isBlankText hregular
  rintro rfl
  have hnil : afterSpaces s = [] := List.dropWhile_eq_nil_iff.2 h
  simp [hnil] at hne

variable (spacing)

theorem Forest.isTight_source {F : Forest} (h : F.startsWithText = false) :
    Text.IsTight (F.source spacing) := by
  cases F with
  | nil => exact Text.isTight_nil
  | text content rest => cases h
  | element tag children rest => exact Text.isTight_cons _ (by decide)
  | selfClosing tag rest => exact Text.isTight_cons _ (by decide)
  | flow head body chain rest => exact Text.isTight_cons _ (by decide)

theorem Forest.isLine_source_of_isInline {F : Forest} (h : F.isRegular = true)
    (hinline : F.isInline = true) : Text.IsLine (F.source spacing) := by
  match F with
  | .nil => exact isLine_nil
  | .text content .nil =>
      obtain ⟨hleaf, -⟩ := Forest.isRegular_text.1 h
      rw [Forest.source, Forest.source, List.append_nil]
      exact Text.not_mem_of_forall (isLeafText_cases hleaf).2 (by decide)

mutual

/-- The one-line form spells its forest. -/
theorem Forest.spells_source {F : Forest} (h : F.isRegular = true) (n : Nat) :
    F.Spells spacing n (F.source spacing) := by
  match F with
  | .nil => exact Text.isGap_nil
  | .text content rest =>
      obtain ⟨hleaf, hnext, hrest⟩ := Forest.isRegular_text.1 h
      have hspells := Forest.spells_source hrest n
      have htight : Text.IsTight (rest.source spacing) :=
        Forest.isTight_source spacing hnext
      refine ⟨content, rest.source spacing, rfl, rfl, ?_, htight, hspells⟩
      intro c hc
      simp [isTextChar, (isLeafText_cases hleaf).2 c hc]
  | .element tag children rest =>
      obtain ⟨-, -, -, hchildren, hrest⟩ := Forest.isRegular_element.1 h
      refine ⟨[], tag.stem ++ [] ++ TagEnd.opening.stackedText, children.source spacing,
        rest.source spacing, ?_, Text.isGap_nil, Tag.spells_stem tag _ Text.isGap_nil,
        Forest.spells_source hchildren n, Forest.isLine_source_of_isInline spacing hchildren,
        Forest.spells_source hrest n⟩
      simp [Forest.source, TagEnd.stackedText]
  | .selfClosing tag rest =>
      obtain ⟨-, hrest⟩ := Forest.isRegular_selfClosing.1 h
      refine ⟨[], tag.stem ++ Text.spaces spacing.slash ++ TagEnd.selfClosing.stackedText,
        rest.source spacing, ?_, Text.isGap_nil, Tag.spells_stem tag _ (Text.isGap_spaces _),
        Forest.spells_source hrest n⟩
      simp [Forest.source, TagEnd.stackedText]
  | .flow head body chain rest =>
      obtain ⟨-, hbody, hchain, hrest⟩ := Forest.isRegular_flow.1 h
      obtain ⟨clauses, hclauses, hmatches⟩ := Chain.matches_source hchain n
      have hline := Forest.isLine_source spacing hbody
      have hregular := Forest.isRegular_of_isClean hbody
      have hspells := Forest.spells_source hregular (n - 1)
      refine ⟨[], Forest.flowSource spacing head body chain, body.source spacing, clauses,
        rest.source spacing, ?_, Text.isGap_nil,
        ⟨_, _, rfl, spacing.spells_conditionText head.condition, hclauses⟩,
        hspells.solid_rows hregular hline, fun b' hb' => hspells.of_rows hregular hline hb',
        hmatches, fun _ => rfl, Forest.spells_source hrest n⟩
      simp [Forest.source, Forest.flowSource]

theorem Chain.matches_source {chain : Chain} (h : chain.isClean = true) (n : Nat) :
    ∃ clauses, SpellsClauses clauses (chain.source spacing) ∧ chain.Matches spacing n clauses := by
  match chain with
  | .nil => exact ⟨[], rfl, rfl⟩
  | .clause head body rest =>
      obtain ⟨-, hbody, hrest⟩ := Chain.isClean_clause.1 h
      obtain ⟨others, hothers, hmatches⟩ := Chain.matches_source hrest n
      have hline := Forest.isLine_source spacing hbody
      have hregular := Forest.isRegular_of_isClean hbody
      have hspells := Forest.spells_source hregular (n - 1)
      refine ⟨⟨head, body.source spacing⟩ :: others, ?_, ?_⟩
      · exact ⟨_, _, _, rfl, Text.isGap_spaces _, spacing.spells_conditionText head.condition?,
          hothers⟩
      · exact ⟨_, others, rfl, hspells.solid_rows hregular hline,
          fun b' hb' => hspells.of_rows hregular hline hb', hmatches⟩

end

/-- The one-line form of a block, taken apart. -/
theorem Forest.spellsFlow_flowSource (head : FlowHead) {body : Forest} {chain : Chain}
    (hbody : body.isClean = true) (hchain : chain.isClean = true) (n : Nat) :
    ∃ clauses, SpellsFlow head (body.source spacing) clauses
        (Forest.flowSource spacing head body chain) ∧
      (∀ row ∈ Text.rows (body.source spacing), Text.isBlankText row = false) ∧
      (∀ b, Text.rows b = Text.rows (body.source spacing) → body.Spells spacing (n - 1) b) ∧
      chain.Matches spacing n clauses := by
  obtain ⟨clauses, hclauses, hmatches⟩ := Chain.matches_source spacing hchain n
  have hline := Forest.isLine_source spacing hbody
  have hregular := Forest.isRegular_of_isClean hbody
  have hspells := Forest.spells_source spacing hregular (n - 1)
  exact ⟨clauses, ⟨_, _, rfl, spacing.spells_conditionText head.condition, hclauses⟩,
    hspells.solid_rows hregular hline, fun b hb => hspells.of_rows hregular hline hb, hmatches⟩

end Spelling

end RazorLayout
