import RazorLayout.Proofs.Forest.Layout
import RazorLayout.Proofs.Tag.Rows

/-!
# The rows of a forest's layout

The layout of a forest spells the forest again.  `Forest.layoutRows` gives the rows that its items
bring, from a level on.

* `Forest.SpelledBy` says of rows that none of them is blank and that every text with these rows
  spells the forest, whatever its blank lines and its margin.

Result.  `Forest.spelledBy_layoutRows`: a clean forest is spelled by the rows of its layout.
-/

namespace RazorLayout

namespace Context

section Runs

theorem itemsLines_append_run (ctx : Context) (level : Nat) (items others : List Item)
    (j : Journal) :
    (ctx.itemsLines level (items ++ others)).run j =
      let front := (ctx.itemsLines level items).run j
      let back := (ctx.itemsLines (items.foldl Item.levelAfter level) others).run front.2
      (front.1 ++ back.1, back.2) := by
  induction items generalizing level j with
  | nil => rfl
  | cons item items ih =>
      simp only [List.cons_append, itemsLines_cons_run, ih, List.foldl_cons, List.append_assoc]

end Runs

end Context

section Rows

variable (spacing : Spacing) (ctx : Context)

/-- The rows that the items of a forest bring, from a level on. -/
def Forest.layoutRows (F : Forest) (level : Nat) (j : Journal) : List Text :=
  ((ctx.itemsLines level (F.items spacing)).run j).1.flatMap Text.rows

theorem Forest.foldl_levelAfter_items (F : Forest) (level : Nat) :
    (F.items spacing).foldl Item.levelAfter level = level := by
  match F with
  | .nil => rfl
  | .text content rest => exact Forest.foldl_levelAfter_items rest level
  | .element tag children rest =>
      have hchildren := Forest.foldl_levelAfter_items children (level + 1)
      have hrest := Forest.foldl_levelAfter_items rest level
      rw [Forest.items]
      split
      · exact hrest
      · simp only [List.foldl_cons, List.foldl_append, Item.levelAfter, hchildren,
          Nat.add_sub_cancel, hrest]
  | .selfClosing tag rest => exact Forest.foldl_levelAfter_items rest level
  | .flow head body chain rest => exact Forest.foldl_levelAfter_items rest level

/-- The first item brings its rows, and the others bring theirs. -/
theorem layoutRows_cons (item : Item) (items : List Item) (level : Nat) (j : Journal) :
    ∃ j', ((ctx.itemsLines level (item :: items)).run j).1.flatMap Text.rows =
      ((ctx.itemLines (ctx.config.indentation (item.levelAt level)) item).run j).1.flatMap
          Text.rows ++
        ((ctx.itemsLines (item.levelAfter level) items).run j').1.flatMap Text.rows := by
  refine ⟨((ctx.itemLines (ctx.config.indentation (item.levelAt level)) item).run j).2, ?_⟩
  rw [Context.itemsLines_cons_run]
  simp only [List.flatMap_append, Text.flatMap_rows_solid]

theorem layoutRows_append (items others : List Item) (level : Nat) (j : Journal) :
    ∃ j', ((ctx.itemsLines level (items ++ others)).run j).1.flatMap Text.rows =
      ((ctx.itemsLines level items).run j).1.flatMap Text.rows ++
        ((ctx.itemsLines (items.foldl Item.levelAfter level) others).run j').1.flatMap
          Text.rows := by
  refine ⟨((ctx.itemsLines level items).run j).2, ?_⟩
  rw [Context.itemsLines_append_run]
  simp only [List.flatMap_append]

end Rows

section Nodes

variable (spacing : Spacing) (ctx : Context) (level : Nat)

theorem isGap_indentation (config : Config) (level : Nat) :
    Text.IsGap (config.indentation level) :=
  Text.isGap_spaces _

theorem isLine_of_isLeafText {content : Text} (h : isLeafText content = true) :
    Text.IsLine (Text.strip content) := by
  intro hmem
  have hplain := (isLeafText_cases h).2 _ (Text.mem_of_mem_strip hmem)
  exact absurd hplain (by decide)

/-- A text is laid out on one line. -/
theorem textLines_of_isLeafText {content indent : Text} (h : isLeafText content = true) :
    Context.textLines indent content = [indent ++ Text.strip content] := by
  have hsolid : Text.isBlankText (Text.strip content) = false := by
    by_contra hblank
    have hnil := Text.strip_of_isBlankText (by simpa using hblank)
    rw [Text.strip_strip, Text.strip_eq_nil_iff, (isLeafText_cases h).1] at hnil
    cases hnil
  rw [Context.textLines, Text.lines_of_isLine (isLine_of_isLeafText h)]
  simp [hsolid]

theorem rows_textLines {content indent : Text} (h : isLeafText content = true)
    (hindent : Text.IsGap indent) :
    (Context.textLines indent content).flatMap Text.rows = [Text.strip content] := by
  obtain ⟨⟨c, cs, hcons, hc⟩, -⟩ := Text.strip_eq_cons (isLeafText_cases h).1
  have hspace : isSpace c = false := by
    by_contra hspace
    rw [isBlank_of_isSpace (by simpa using hspace)] at hc
    cases hc
  rw [textLines_of_isLeafText h, List.flatMap_singleton, Text.rows_gap_append hindent]
  exact Tag.rows_eq_singleton hcons hspace (isLine_of_isLeafText h)

theorem Forest.layoutRows_text {content : Text} (h : isLeafText content = true) (rest : Forest)
    (j : Journal) :
    ∃ j', (Forest.text content rest).layoutRows spacing ctx level j =
      Text.strip content :: rest.layoutRows spacing ctx level j' := by
  obtain ⟨j', hrows⟩ := layoutRows_cons ctx (.text content) (rest.items spacing) level j
  refine ⟨j', hrows.trans ?_⟩
  have hlines : ((ctx.itemLines (ctx.config.indentation level) (.text content)).run j).1 =
      Context.textLines (ctx.config.indentation level) content := by
    rw [Context.itemLines, if_neg (by simp [(isLeafText_cases h).1])]
    rfl
  rw [show (Item.text content).levelAt level = level from rfl, hlines,
    rows_textLines h (isGap_indentation _ _)]
  rfl

theorem Forest.layoutRows_selfClosing {tag : Tag} (h : tag.isClean = true) (rest : Forest)
    (j : Journal) :
    ∃ j', (Forest.selfClosing tag rest).layoutRows spacing ctx level j =
      tag.rows ctx.config (ctx.config.indentation level).length .selfClosing [] ++
        rest.layoutRows spacing ctx level j' := by
  obtain ⟨j', hrows⟩ := layoutRows_cons ctx (.selfClosingTag tag) (rest.items spacing) level j
  refine ⟨j', hrows.trans ?_⟩
  rw [← Context.rows_tagLines ctx (isGap_indentation ctx.config level) h .selfClosing]
  rfl

theorem Forest.layoutRows_inline {tag : Tag} {children : Forest} (h : tag.isClean = true)
    (hinline : children.isInline = true) (hline : Text.IsLine children.inlineText) (rest : Forest)
    (j : Journal) :
    ∃ j', (Forest.element tag children rest).layoutRows spacing ctx level j =
      tag.rows ctx.config (ctx.config.indentation level).length .opening
          (children.inlineText ++ Context.closingTag tag.name) ++
        rest.layoutRows spacing ctx level j' := by
  obtain ⟨j', hrows⟩ :=
    layoutRows_cons ctx (.inline tag children.inlineText) (rest.items spacing) level j
  refine ⟨j', ?_⟩
  have hitems : (Forest.element tag children rest).items spacing =
      .inline tag children.inlineText :: rest.items spacing := by
    rw [Forest.items, if_pos hinline]
  rw [Forest.layoutRows, hitems, hrows,
    ← Context.rows_inlineLines ctx (isGap_indentation ctx.config level) h hline]
  rfl

theorem rows_closingTag {name : Text} (h : isTagName name = true) :
    Text.rows (Context.closingTag name) = [Context.closingTag name] :=
  Tag.rows_eq_singleton (c := '<') rfl (by decide) (isLine_closingTag h)

theorem Forest.layoutRows_element {tag : Tag} {children : Forest} (h : tag.isClean = true)
    (hinline : children.isInline = false) (rest : Forest) (j : Journal) :
    ∃ j' j'', (Forest.element tag children rest).layoutRows spacing ctx level j =
      tag.rows ctx.config (ctx.config.indentation level).length .opening [] ++
        (children.layoutRows spacing ctx (level + 1) j' ++
          Context.closingTag tag.name :: rest.layoutRows spacing ctx level j'') := by
  have hitems : (Forest.element tag children rest).items spacing =
      .openTag tag :: (children.items spacing ++ .closeTag tag.name :: rest.items spacing) := by
    rw [Forest.items, if_neg (by simp [hinline])]
  obtain ⟨j', hrows⟩ := layoutRows_cons ctx (.openTag tag)
    (children.items spacing ++ .closeTag tag.name :: rest.items spacing) level j
  obtain ⟨j₁, hchildren⟩ := layoutRows_append ctx (children.items spacing)
    (.closeTag tag.name :: rest.items spacing) (level + 1) j'
  obtain ⟨j₂, hclose⟩ :=
    layoutRows_cons ctx (.closeTag tag.name) (rest.items spacing) (level + 1) j₁
  refine ⟨j', j₂, ?_⟩
  rw [Forest.foldl_levelAfter_items, hclose] at hchildren
  have hclosing : ((ctx.itemLines (ctx.config.indentation level)
      (.closeTag tag.name)).run j₁).1.flatMap Text.rows = [Context.closingTag tag.name] := by
    have hlines : ((ctx.itemLines (ctx.config.indentation level)
        (.closeTag tag.name)).run j₁).1 =
          [ctx.config.indentation level ++ Context.closingTag tag.name] := rfl
    rw [hlines, List.flatMap_singleton, Text.rows_gap_append (isGap_indentation _ _),
      rows_closingTag (Tag.isClean_cases h).1]
  rw [Forest.layoutRows, hitems, hrows,
    show (Item.openTag tag).levelAfter level = level + 1 from rfl, hchildren,
    show (Item.closeTag tag.name).levelAt (level + 1) = level from rfl, hclosing,
    show (Item.closeTag tag.name).levelAfter (level + 1) = level from rfl,
    ← Context.rows_tagLines ctx (isGap_indentation ctx.config level) h .opening]
  rfl

theorem Forest.layoutRows_flow (head : FlowHead) (body : Forest) (chain : Chain) (rest : Forest)
    (j : Journal) :
    ∃ j', (Forest.flow head body chain rest).layoutRows spacing ctx level j =
      ((ctx.blockLines (ctx.config.indentation level)
          (Forest.flowSource spacing head body chain)).run j).1.flatMap Text.rows ++
        rest.layoutRows spacing ctx level j' := by
  obtain ⟨j', hrows⟩ := layoutRows_cons ctx (.block (Forest.flowSource spacing head body chain))
    (rest.items spacing) level j
  exact ⟨j', hrows⟩

end Nodes

section Bodies

variable {spacing : Spacing} {config : Config} {collaborators : Collaborators} {n : Nat}

theorem rows_sheetText (s : Sheet) : Text.rows s.text = s.solidLines.flatMap Text.rows := by
  rw [Sheet.text, Text.rows_unlines, Sheet.solidLines, Text.flatMap_rows_solid]

/-- The page of a forest has the rows of its items. -/
theorem Forest.rows_placeAll (F : Forest) (ctx : Context) (j : Journal) :
    Text.rows ((ctx.placeAll {} (F.items spacing)).run j).1.sheet.text =
      F.layoutRows spacing ctx 0 j := by
  obtain ⟨hlines, -⟩ := ctx.placeAll_run {} (F.items spacing) j
  rw [rows_sheetText]
  exact congrArg (List.flatMap Text.rows) hlines

theorem Forest.rows_bodyLines {body : Forest} {lead : Text} (hlead : Text.IsGap lead) (j : Journal)
    (hsolid : ∀ row ∈ body.layoutRows spacing
      ⟨config, collaborators, formatWithin config collaborators n⟩ 0 j,
        Text.isBlankText row = false) :
    ((body.bodyLines spacing config collaborators n lead).run j).1.flatMap Text.rows =
      body.layoutRows spacing ⟨config, collaborators, formatWithin config collaborators n⟩ 0 j := by
  cases hnil : body.isNil with
  | true =>
      cases body with
      | nil => rfl
      | text => cases hnil
      | element => cases hnil
      | selfClosing => cases hnil
      | flow => cases hnil
  | false =>
      rw [← Forest.rows_placeAll] at hsolid ⊢
      rw [Forest.bodyLines, if_neg (by simp [hnil])]
      exact Text.flatMap_rows_indent hlead hsolid

variable (spacing config collaborators n)

/-- The rows of clauses. -/
def Chain.layoutRows (chain : Chain) (indent : Text) (j : Journal) : List Text :=
  ((chain.lines spacing config collaborators n indent).run j).1.flatMap Text.rows

variable {spacing config collaborators n}

theorem rows_brace : Text.rows ['{'] = [['{']] ∧ Text.rows ['}'] = [['}']] :=
  ⟨rfl, rfl⟩

theorem isLine_conditionText {condition : Option Text} (h : condition.all isCondition = true) :
    Text.IsLine (conditionText condition) := by
  cases condition with
  | none => exact isLine_nil
  | some condition => exact isLine_cons.2 ⟨by decide, isLine_parenthesised h⟩

theorem ClauseHead.rows_text {head : ClauseHead} (h : head.isClean = true) :
    Text.rows head.text = [head.text] := by
  have hline : Text.IsLine head.text := by
    rw [text_eq, isLine_append]
    exact ⟨isLine_words head, isLine_conditionText h⟩
  cases head <;> exact Tag.rows_eq_singleton rfl (by decide) hline

theorem FlowHead.rows_header {head : FlowHead} (h : head.isClean = true) :
    Text.rows (head.words ++ conditionText head.condition) =
      [head.words ++ conditionText head.condition] := by
  obtain ⟨-, hcondition, -⟩ := isClean_cases h
  exact Tag.rows_eq_singleton rfl (by decide)
    (isLine_append.2 ⟨isLine_words h, isLine_conditionText hcondition⟩)

/-- The rows of a head, a body between braces, and what follows. -/
theorem rows_braced {indent header : Text} (hindent : Text.IsGap indent)
    (hheader : Text.rows header = [header]) (body others : List Text) :
    ((indent ++ header) :: (indent ++ ['{']) :: body ++ [indent ++ ['}']] ++ others).flatMap
        Text.rows =
      header :: ['{'] :: (body.flatMap Text.rows ++ ['}'] :: others.flatMap Text.rows) := by
  simp [Text.rows_gap_append hindent, hheader, rows_brace]

theorem Chain.layoutRows_clause {head : ClauseHead} {body : Forest} {indent : Text}
    (hindent : Text.IsGap indent) (hhead : head.isClean = true) (rest : Chain) (j : Journal)
    (hsolid : ∀ row ∈ body.layoutRows spacing
      ⟨config, collaborators, formatWithin config collaborators n⟩ 0 j,
        Text.isBlankText row = false) :
    ∃ j', (Chain.clause head body rest).layoutRows spacing config collaborators n indent j =
      head.text :: ['{'] ::
        (body.layoutRows spacing ⟨config, collaborators, formatWithin config collaborators n⟩ 0 j ++
          ['}'] :: rest.layoutRows spacing config collaborators n indent j') := by
  let bodyRun := (body.bodyLines spacing config collaborators n (indent ++ config.unit)).run j
  refine ⟨bodyRun.2, ?_⟩
  have hlead : Text.IsGap (indent ++ config.unit) := hindent.append (Text.isGap_spaces _)
  rw [← Forest.rows_bodyLines hlead j hsolid]
  exact rows_braced hindent (ClauseHead.rows_text hhead) bodyRun.1 _

theorem Forest.rows_flowLines {head : FlowHead} {body : Forest} {indent : Text}
    (hindent : Text.IsGap indent) (hhead : head.isClean = true) (chain : Chain) (j : Journal)
    (hsolid : ∀ row ∈ body.layoutRows spacing
      ⟨config, collaborators, formatWithin config collaborators n⟩ 0 j,
        Text.isBlankText row = false) :
    ∃ j', ((Forest.flowLines spacing config collaborators n indent head body chain).run
        j).1.flatMap Text.rows =
      (head.words ++ conditionText head.condition) :: ['{'] ::
        (body.layoutRows spacing ⟨config, collaborators, formatWithin config collaborators n⟩ 0 j ++
          ['}'] :: chain.layoutRows spacing config collaborators n indent j') := by
  let bodyRun := (body.bodyLines spacing config collaborators n (indent ++ config.unit)).run j
  refine ⟨bodyRun.2, ?_⟩
  have hlead : Text.IsGap (indent ++ config.unit) := hindent.append (Text.isGap_spaces _)
  rw [← Forest.rows_bodyLines hlead j hsolid]
  exact rows_braced hindent (FlowHead.rows_header hhead) bodyRun.1 _

/-- A text with the rows of a head and a body between braces, taken apart. -/
theorem exists_braced {t header : Text} {body more : List Text}
    (h : Text.rows t = header :: ['{'] :: (body ++ ['}'] :: more)) :
    ∃ lead gap b rest, t = lead ++ header ++ gap ++ '{' :: b ++ '}' :: rest ∧ Text.IsGap lead ∧
      Text.IsGap gap ∧ Text.rows b = body ∧ Text.rows rest = more := by
  obtain ⟨lead, hlead, ht⟩ := Text.exists_gap t
  rw [← Text.rows_afterSpaces] at h
  obtain ⟨gap, t₁, h₁, hgap, htight₁, hrows₁, -⟩ :=
    Text.exists_row (Text.isTight_afterSpaces t) h
  obtain ⟨g₂, t₂, h₂, hg₂, htight₂, hrows₂, -⟩ := Text.exists_row htight₁ hrows₁
  obtain ⟨b, t₃, h₃, hb, hrows₃, -, htight₃⟩ := Text.exists_cut htight₂ hrows₂
  obtain ⟨g₄, t₄, h₄, hg₄, -, hrows₄, -⟩ := Text.exists_row htight₃ hrows₃
  refine ⟨lead, gap, g₂ ++ b, g₄ ++ t₄, ?_, hlead, hgap, ?_, ?_⟩
  · rw [ht, h₁, h₂, h₃, h₄]
    simp
  · rw [Text.rows_gap_append hg₂, hb]
  · rw [Text.rows_gap_append hg₄, hrows₄]

end Bodies

section Spelling

variable {spacing : Spacing} {config : Config} {collaborators : Collaborators}

theorem Chain.getLast?_source (chain : Chain) (front : Text) :
    (front ++ '}' :: chain.source spacing).getLast? = some '}' := by
  match chain with
  | .nil => simp [Chain.source]
  | .clause head body rest =>
      have hassoc : front ++ '}' :: (Chain.clause head body rest).source spacing =
          (front ++ '}' :: (Text.spaces spacing.clause ++ head.words ++
            spacing.conditionText head.condition? ++ '{' :: body.source spacing)) ++
              '}' :: rest.source spacing := by
        simp [Chain.source]
      rw [hassoc]
      exact Chain.getLast?_source rest _

theorem Forest.getLast?_flowSource (head : FlowHead) (body : Forest) (chain : Chain) :
    (Forest.flowSource spacing head body chain).getLast? = some '}' :=
  Chain.getLast?_source chain _

/-- A block in its one-line form is trimmed. -/
theorem Forest.strip_flowSource (head : FlowHead) (body : Forest) (chain : Chain) :
    Text.strip (Forest.flowSource spacing head body chain) =
      Forest.flowSource spacing head body chain :=
  Text.strip_eq_self (c := '@') rfl (by decide) (Forest.getLast?_flowSource head body chain)
    (by decide)

theorem Forest.isLine_flowSource {head : FlowHead} {body : Forest} {chain : Chain}
    (hhead : head.isClean = true) (hbody : body.isClean = true) (hchain : chain.isClean = true) :
    Text.IsLine (Forest.flowSource spacing head body chain) := by
  have hline := Forest.isLine_source spacing
    (Forest.isClean_flow.2 ⟨hhead, hbody, hchain, (rfl : Forest.nil.isClean = true)⟩)
  rwa [Forest.source, Forest.source, List.append_nil] at hline

theorem Forest.rows_blockLines_zero {head : FlowHead} {body : Forest} {chain : Chain}
    {indent : Text} (hhead : head.isClean = true) (hbody : body.isClean = true)
    (hchain : chain.isClean = true) (hindent : Text.IsGap indent) (j : Journal) :
    ((Context.blockLines ⟨config, collaborators, formatWithin config collaborators 0⟩ indent
        (Forest.flowSource spacing head body chain)).run j).1.flatMap Text.rows =
      [Forest.flowSource spacing head body chain] := by
  have hlines : ((Context.blockLines ⟨config, collaborators, formatWithin config collaborators 0⟩
      indent (Forest.flowSource spacing head body chain)).run j).1 =
        [indent ++ Text.strip (Forest.flowSource spacing head body chain)] := rfl
  rw [hlines, Forest.strip_flowSource, List.flatMap_singleton, Text.rows_gap_append hindent]
  exact Tag.rows_eq_singleton (c := '@') rfl (by decide)
    (Forest.isLine_flowSource hhead hbody hchain)

end Spelling

section Contract

variable (spacing : Spacing) (n : Nat)

/-- Rows that a forest is spelled by: none of them is blank, and every text with these rows is a
spelling of the forest, whatever its blank lines and its margin. -/
def Forest.SpelledBy (F : Forest) (rows : List Text) : Prop :=
  (∀ row ∈ rows, Text.isBlankText row = false) ∧
    ∀ t, Text.rows t = rows → F.Spells spacing n t

/-- Rows that clauses are spelled by, whatever stands behind them. -/
def Chain.SpelledBy (chain : Chain) (rows : List Text) : Prop :=
  (∀ row ∈ rows, Text.isBlankText row = false) ∧
    ∀ t more, Text.rows t = rows ++ more →
      ∃ clauses y rest, t = y ++ rest ∧ SpellsClauses clauses y ∧
        chain.Matches spacing n clauses ∧ Text.rows rest = more

end Contract

section Nodes

variable {spacing : Spacing} {n : Nat} {config : Config} {width : Nat}

theorem Forest.spelledBy_nil : Forest.nil.SpelledBy spacing n [] :=
  ⟨by simp, fun _ ht => Text.isGap_of_rows_eq_nil ht⟩

theorem Forest.SpelledBy.text {content : Text} {rest : Forest} {rows : List Text}
    (hleaf : isLeafText content = true) (hrest : rest.SpelledBy spacing n rows) :
    (Forest.text content rest).SpelledBy spacing n (Text.strip content :: rows) := by
  obtain ⟨⟨c, cs, hcons, hc⟩, -⟩ := Text.strip_eq_cons (isLeafText_cases hleaf).1
  refine ⟨List.forall_mem_cons.2 ⟨?_, hrest.1⟩, ?_⟩
  · rw [hcons]
    exact Tag.isBlankText_cons hc cs
  intro t ht
  obtain ⟨lead, hlead, htext⟩ := Text.exists_gap t
  rw [← Text.rows_afterSpaces] at ht
  obtain ⟨g, tail, hsplit, hg, htail, hmore, -⟩ :=
    Text.exists_row (Text.isTight_afterSpaces t) ht
  refine ⟨lead ++ (Text.strip content ++ g), tail, ?_, ?_, ?_, htail, hrest.2 tail hmore⟩
  · rw [htext, hsplit]
    simp
  · rw [Text.strip_blank_append hlead.isBlankText, Text.strip_append_blank hg.isBlankText,
      Text.strip_strip]
  · intro c hc
    rcases List.mem_append.1 hc with hc | hc
    · exact isTextChar_of_isSpace (hlead c hc)
    · rcases List.mem_append.1 hc with hc | hc
      · have hplain := (isLeafText_cases hleaf).2 c (Text.mem_of_mem_strip hc)
        simp [isTextChar, hplain]
      · exact isTextChar_of_isSpace (hg c hc)

theorem Forest.SpelledBy.selfClosing {tag : Tag} {rest : Forest} {rows : List Text}
    (htag : tag.isClean = true) (hrest : rest.SpelledBy spacing n rows) :
    (Forest.selfClosing tag rest).SpelledBy spacing n
      (tag.rows config width .selfClosing [] ++ rows) := by
  refine ⟨List.forall_mem_append.2 ⟨Tag.solid_rows htag, hrest.1⟩, ?_⟩
  intro t ht
  obtain ⟨lead, hlead, htext⟩ := Text.exists_gap t
  rw [← Text.rows_afterSpaces] at ht
  obtain ⟨x, g, tail, hsplit, hx, hg, -, hmore⟩ :=
    Tag.exists_spelling (Text.isTight_afterSpaces t) ht
  refine ⟨lead, x, g ++ tail, ?_, hlead, hx, hrest.2 _ ?_⟩
  · rw [htext, hsplit, List.nil_append]
  · rw [Text.rows_gap_append hg, hmore]

theorem Forest.isLine_inlineText {children : Forest} (hregular : children.isRegular = true) :
    Text.IsLine children.inlineText := by
  match children with
  | .text content rest => exact isLine_of_isLeafText (Forest.isRegular_text.1 hregular).1
  | .nil => exact isLine_nil
  | .element tag children rest => exact isLine_nil
  | .selfClosing tag rest => exact isLine_nil
  | .flow head body chain rest => exact isLine_nil

theorem Forest.spells_inlineText {children : Forest} (hregular : children.isRegular = true)
    (hinline : children.isInline = true) : children.Spells spacing n children.inlineText := by
  match children with
  | .nil => exact Text.isGap_nil
  | .text content .nil =>
      obtain ⟨hleaf, -⟩ := Forest.isRegular_text.1 hregular
      refine ⟨Text.strip content, [], by simp [Forest.inlineText], Text.strip_strip content, ?_,
        Text.isTight_nil, Text.isGap_nil⟩
      intro c hc
      have hplain := (isLeafText_cases hleaf).2 c (Text.mem_of_mem_strip hc)
      simp [isTextChar, hplain]

theorem Forest.SpelledBy.inline {tag : Tag} {children rest : Forest} {rows : List Text}
    (htag : tag.isClean = true) (hchildren : children.isRegular = true)
    (hinline : children.isInline = true) (hrest : rest.SpelledBy spacing n rows) :
    (Forest.element tag children rest).SpelledBy spacing n
      (tag.rows config width .opening (children.inlineText ++ Context.closingTag tag.name) ++
        rows) := by
  refine ⟨List.forall_mem_append.2 ⟨Tag.solid_rows htag, hrest.1⟩, ?_⟩
  intro t ht
  obtain ⟨lead, hlead, htext⟩ := Text.exists_gap t
  rw [← Text.rows_afterSpaces] at ht
  obtain ⟨x, g, tail, hsplit, hx, hg, -, hmore⟩ :=
    Tag.exists_spelling (Text.isTight_afterSpaces t) ht
  refine ⟨lead, x, children.inlineText, g ++ tail, ?_, hlead, hx,
    Forest.spells_inlineText hchildren hinline, fun _ => Forest.isLine_inlineText hchildren,
    hrest.2 _ ?_⟩
  · rw [htext, hsplit, List.append_assoc]
  · rw [Text.rows_gap_append hg, hmore]

theorem Forest.SpelledBy.element {tag : Tag} {children rest : Forest} {inside rows : List Text}
    (htag : tag.isClean = true) (hinline : children.isInline = false)
    (hchildren : children.SpelledBy spacing n inside) (hrest : rest.SpelledBy spacing n rows) :
    (Forest.element tag children rest).SpelledBy spacing n
      (tag.rows config width .opening [] ++ (inside ++ Context.closingTag tag.name :: rows)) := by
  refine ⟨?_, ?_⟩
  · have hclose : Text.isBlankText (Context.closingTag tag.name) = false :=
      Tag.isBlankText_cons (c := '<') (by decide) _
    exact List.forall_mem_append.2 ⟨Tag.solid_rows htag, List.forall_mem_append.2
      ⟨hchildren.1, List.forall_mem_cons.2 ⟨hclose, hrest.1⟩⟩⟩
  · intro t ht
    obtain ⟨lead, hlead, htext⟩ := Text.exists_gap t
    rw [← Text.rows_afterSpaces] at ht
    obtain ⟨x, g, t₁, hsplit, hx, hg, htight₁, hrows₁⟩ :=
      Tag.exists_spelling (Text.isTight_afterSpaces t) ht
    obtain ⟨inner, t₂, hcut, hinner, hrows₂, -, htight₂⟩ := Text.exists_cut htight₁ hrows₁
    obtain ⟨g', tail, hclose, hg', -, hmore, -⟩ := Text.exists_row htight₂ hrows₂
    refine ⟨lead, x, g ++ inner, g' ++ tail, ?_, hlead, hx, hchildren.2 _ ?_, ?_, hrest.2 _ ?_⟩
    · rw [htext, hsplit, hcut, hclose]
      simp
    · rw [Text.rows_gap_append hg, hinner]
    · rw [hinline]
      rintro ⟨⟩
    · rw [Text.rows_gap_append hg', hmore]

/-- A block that is nested too deep stands on one row. -/
theorem Forest.SpelledBy.flow_row {head : FlowHead} {body rest : Forest} {chain : Chain}
    {rows : List Text} (hbody : body.isClean = true) (hchain : chain.isClean = true)
    (hrest : rest.SpelledBy spacing 0 rows) :
    (Forest.flow head body chain rest).SpelledBy spacing 0
      (Forest.flowSource spacing head body chain :: rows) := by
  have hsolid : Text.isBlankText (Forest.flowSource spacing head body chain) = false :=
    Tag.isBlankText_cons (c := '@') (by decide) _
  refine ⟨List.forall_mem_cons.2 ⟨hsolid, hrest.1⟩, ?_⟩
  intro t ht
  obtain ⟨lead, hlead, htext⟩ := Text.exists_gap t
  rw [← Text.rows_afterSpaces] at ht
  obtain ⟨g, tail, hsplit, hg, -, hmore, -⟩ := Text.exists_row (Text.isTight_afterSpaces t) ht
  obtain ⟨clauses, hflow, hsolidBody, hspells, hmatches⟩ :=
    Forest.spellsFlow_flowSource spacing head hbody hchain 0
  refine ⟨lead, _, _, clauses, g ++ tail, ?_, hlead, hflow, hsolidBody, hspells, hmatches,
    fun _ => rfl, hrest.2 _ ?_⟩
  · rw [htext, hsplit, List.append_assoc]
  · rw [Text.rows_gap_append hg, hmore]

theorem Chain.spelledBy_nil : Chain.nil.SpelledBy spacing n [] :=
  ⟨by simp, fun t _ ht => ⟨[], [], t, rfl, rfl, rfl, ht⟩⟩

/-- Rows between braces, none of them blank. -/
theorem solid_braced {header : Text} {c : Char} {cs : Text} {inside rows : List Text}
    (hheader : header = c :: cs) (hc : isBlank c = false)
    (hinside : ∀ row ∈ inside, Text.isBlankText row = false)
    (hrows : ∀ row ∈ rows, Text.isBlankText row = false) :
    ∀ row ∈ header :: ['{'] :: (inside ++ ['}'] :: rows), Text.isBlankText row = false := by
  have hfirst : Text.isBlankText header = false := by
    rw [hheader]
    exact Tag.isBlankText_cons hc cs
  refine List.forall_mem_cons.2 ⟨hfirst, List.forall_mem_cons.2 ⟨by decide, ?_⟩⟩
  exact List.forall_mem_append.2 ⟨hinside, List.forall_mem_cons.2 ⟨by decide, hrows⟩⟩

theorem Chain.SpelledBy.clause {head : ClauseHead} {body : Forest} {rest : Chain}
    {inside rows : List Text} (hbody : body.SpelledBy spacing n inside)
    (hrest : rest.SpelledBy spacing (n + 1) rows) :
    (Chain.clause head body rest).SpelledBy spacing (n + 1)
      (head.text :: ['{'] :: (inside ++ ['}'] :: rows)) := by
  have hhead : ∃ c cs, head.text = c :: cs ∧ isBlank c = false := by
    cases head <;> exact ⟨_, _, rfl, by decide⟩
  obtain ⟨c, cs, hcons, hc⟩ := hhead
  refine ⟨solid_braced hcons hc hbody.1 hrest.1, ?_⟩
  intro t more ht
  simp only [List.cons_append, List.append_assoc] at ht
  obtain ⟨lead, gap, b, t₁, htext, hlead, hgap, hb, hrows₁⟩ := exists_braced ht
  obtain ⟨others, y, tail, hsplit, hothers, hmatches, hmore⟩ := hrest.2 t₁ more hrows₁
  refine ⟨⟨head, b⟩ :: others,
    lead ++ head.words ++ (conditionText head.condition? ++ gap) ++ '{' :: b ++ '}' :: y, tail,
    ?_, ?_, ?_, hmore⟩
  · rw [htext, hsplit, ClauseHead.text_eq]
    simp
  · exact ⟨lead, _, y, rfl, hlead, spellsCondition_conditionText hgap _, hothers⟩
  · refine ⟨b, others, rfl, ?_, ?_, hmatches⟩
    · rw [hb]
      exact hbody.1
    · intro b' hb'
      exact hbody.2 b' (hb'.trans hb)

/-- A block that may be nested stands on the rows of its head, its body and its clauses. -/
theorem Forest.SpelledBy.flow {head : FlowHead} {body rest : Forest} {chain : Chain}
    {inside clauseRows rows : List Text} (hbody : body.SpelledBy spacing n inside)
    (hchain : chain.SpelledBy spacing (n + 1) clauseRows)
    (hrest : rest.SpelledBy spacing (n + 1) rows) :
    (Forest.flow head body chain rest).SpelledBy spacing (n + 1)
      ((head.words ++ conditionText head.condition) :: ['{'] ::
        (inside ++ ['}'] :: (clauseRows ++ rows))) := by
  refine ⟨solid_braced (c := '@') rfl (by decide) hbody.1
    (List.forall_mem_append.2 ⟨hchain.1, hrest.1⟩), ?_⟩
  intro t ht
  obtain ⟨lead, gap, b, t₁, htext, hlead, hgap, hb, hrows₁⟩ := exists_braced ht
  obtain ⟨clauses, y, tail, hsplit, hclauses, hmatches, hmore⟩ := hchain.2 t₁ rows hrows₁
  refine ⟨lead, head.words ++ (conditionText head.condition ++ gap) ++ '{' :: b ++ '}' :: y, b,
    clauses, tail, ?_, hlead, ⟨_, y, rfl, spellsCondition_conditionText hgap _, hclauses⟩, ?_, ?_,
    hmatches, ?_, hrest.2 tail hmore⟩
  · rw [htext, hsplit]
    simp
  · rw [hb]
    exact hbody.1
  · intro b' hb'
    exact hbody.2 b' (hb'.trans hb)
  · intro hzero
    cases hzero

end Nodes

section Rows

variable {spacing : Spacing} {config : Config} {collaborators : Collaborators}

mutual

/-- The rows of a forest's layout spell the forest. -/
theorem Forest.spelledBy_layoutRows {F : Forest} (hclean : F.isClean = true) (n level : Nat)
    (j : Journal) :
    F.SpelledBy spacing n (F.layoutRows spacing
      ⟨config, collaborators, formatWithin config collaborators n⟩ level j) := by
  match F with
  | .nil => exact Forest.spelledBy_nil
  | .text content rest =>
      obtain ⟨hleaf, -, hrest⟩ := Forest.isClean_text.1 hclean
      obtain ⟨j', hrows⟩ := Forest.layoutRows_text spacing
        ⟨config, collaborators, formatWithin config collaborators n⟩ level hleaf rest j
      rw [hrows]
      exact Forest.SpelledBy.text hleaf (Forest.spelledBy_layoutRows hrest n level j')
  | .element tag children rest =>
      obtain ⟨htag, -, -, hchildren, hrest⟩ := Forest.isClean_element.1 hclean
      cases hinline : children.isInline with
      | true =>
          obtain ⟨j', hrows⟩ := Forest.layoutRows_inline spacing
            ⟨config, collaborators, formatWithin config collaborators n⟩ level htag hinline
            (Forest.isLine_inlineText (Forest.isRegular_of_isClean hchildren)) rest j
          rw [hrows]
          exact Forest.SpelledBy.inline htag (Forest.isRegular_of_isClean hchildren) hinline
            (Forest.spelledBy_layoutRows hrest n level j')
      | false =>
          obtain ⟨j', j'', hrows⟩ := Forest.layoutRows_element spacing
            ⟨config, collaborators, formatWithin config collaborators n⟩ level htag hinline rest j
          rw [hrows]
          exact Forest.SpelledBy.element htag hinline
            (Forest.spelledBy_layoutRows hchildren n (level + 1) j')
            (Forest.spelledBy_layoutRows hrest n level j'')
  | .selfClosing tag rest =>
      obtain ⟨htag, hrest⟩ := Forest.isClean_selfClosing.1 hclean
      obtain ⟨j', hrows⟩ := Forest.layoutRows_selfClosing spacing
        ⟨config, collaborators, formatWithin config collaborators n⟩ level htag rest j
      rw [hrows]
      exact Forest.SpelledBy.selfClosing htag (Forest.spelledBy_layoutRows hrest n level j')
  | .flow head body chain rest =>
      obtain ⟨hhead, hbody, hchain, hrest⟩ := Forest.isClean_flow.1 hclean
      obtain ⟨j', hrows⟩ := Forest.layoutRows_flow spacing
        ⟨config, collaborators, formatWithin config collaborators n⟩ level head body chain rest j
      rw [hrows]
      have hothers := Forest.spelledBy_layoutRows hrest n level j'
      cases n with
      | zero =>
          rw [Forest.rows_blockLines_zero hhead hbody hchain (isGap_indentation _ _)]
          exact Forest.SpelledBy.flow_row hbody hchain hothers
      | succ n =>
          have hinside := Forest.spelledBy_layoutRows hbody n 0 j
          obtain ⟨j'', hblock⟩ := Forest.rows_flowLines (isGap_indentation config level) hhead chain
            j hinside.1
          rw [Forest.blockLines_flowSource ⟨hhead, hbody, hchain⟩, hblock, List.cons_append,
            List.cons_append, List.append_assoc, List.cons_append]
          exact Forest.SpelledBy.flow hinside
            (Chain.spelledBy_layoutRows hchain n (isGap_indentation config level) j'') hothers

/-- The rows of clauses spell the clauses. -/
theorem Chain.spelledBy_layoutRows {chain : Chain} {indent : Text} (hclean : chain.isClean = true)
    (n : Nat) (hindent : Text.IsGap indent) (j : Journal) :
    chain.SpelledBy spacing (n + 1)
      (chain.layoutRows spacing config collaborators n indent j) := by
  match chain with
  | .nil => exact Chain.spelledBy_nil
  | .clause head body rest =>
      obtain ⟨hhead, hbody, hrest⟩ := Chain.isClean_clause.1 hclean
      have hinside := Forest.spelledBy_layoutRows hbody n 0 j
      obtain ⟨j', hrows⟩ := Chain.layoutRows_clause hindent hhead rest j hinside.1
      rw [hrows]
      exact Chain.SpelledBy.clause hinside (Chain.spelledBy_layoutRows hrest n hindent j')

end

end Rows

end RazorLayout
