import RazorLayout.Proofs.Forest.Shift
import RazorLayout.Proofs.Forest.Structure

/-!
# The drift of a forest

The layout of a regular forest is a spelling, but not always of the forest itself: values of several
lines that stand inside elements move to the right.

* `Forest.drift` is the forest with its values moved as the layout moves them;
* `Forest.isSettled` says that there is nothing to move;
* `Context.Brings` says of items which texts they bring, and composes along lists of items.

Results.

* `Forest.drift_of_isSettled` and `Forest.isSettled_of_drift`: a forest is settled exactly when its
  drift does not drift any more.
* `Forest.brings_items`: the items of a regular forest bring a spelling of its drift.
* `Forest.Spells.drift_formatMarkup`: hence so does the layout of each of its spellings.
-/

namespace RazorLayout

section Definitions

variable (config : Config)

/-- An element on one line with its tag unstacked: no line of it is written behind an
indentation. -/
def Forest.isFlat (level : Nat) (tag : Tag) (children : Forest) : Bool :=
  children.isInline && !tag.isStacked config (config.indentation level).length .opening

/-- The forest with its values moved to the right as its layout moves them. -/
def Forest.drift : Nat → Forest → Forest
  | _, .nil => .nil
  | level, .text content rest => .text content (rest.drift level)
  | level, .element tag children rest =>
      .element
        (if Forest.isFlat config level tag children then tag
          else tag.shift (config.indentation level))
        (children.drift (level + 1)) (rest.drift level)
  | level, .selfClosing tag rest =>
      .selfClosing (tag.shift (config.indentation level)) (rest.drift level)
  | level, .flow head body chain rest => .flow head body chain (rest.drift level)

/-- Whether no value of several lines stands inside an element, on a tag that is written behind an
indentation. -/
def Forest.isSettled : Nat → Forest → Bool
  | _, .nil => true
  | level, .text _ rest => rest.isSettled level
  | level, .element tag children rest =>
      (level == 0 || tag.isClean || Forest.isFlat config level tag children) &&
        children.isSettled (level + 1) && rest.isSettled level
  | level, .selfClosing tag rest => (level == 0 || tag.isClean) && rest.isSettled level
  | level, .flow _ _ _ rest => rest.isSettled level

end Definitions

section Drifting

variable {config : Config}

theorem Forest.startsWithText_drift (F : Forest) (level : Nat) :
    (F.drift config level).startsWithText = F.startsWithText := by
  cases F <;> rfl

theorem Forest.isInline_drift (F : Forest) (level : Nat) :
    (F.drift config level).isInline = F.isInline := by
  match F with
  | .nil => rfl
  | .text content rest => cases rest <;> rfl
  | .element tag children rest => rfl
  | .selfClosing tag rest => rfl
  | .flow head body chain rest => rfl

theorem Forest.drift_of_isInline {F : Forest} (h : F.isInline = true) (level : Nat) :
    F.drift config level = F := by
  match F with
  | .nil => rfl
  | .text content .nil => rfl

theorem Forest.isRegular_drift {F : Forest} (h : F.isRegular = true) (level : Nat) :
    (F.drift config level).isRegular = true := by
  have hshift : ∀ {tag : Tag} (level : Nat), tag.isRegular = true →
      (tag.shift (config.indentation level)).isRegular = true :=
    fun _ htag => Tag.isRegular_shift htag (isGap_indentation _ _) (isLine_indentation _ _)
  fun_induction Forest.drift config level F with
  | case1 level => rfl
  | case2 level content rest ih =>
      obtain ⟨hleaf, hnext, hrest⟩ := Forest.isRegular_text.1 h
      exact Forest.isRegular_text.2
        ⟨hleaf, (rest.startsWithText_drift level).trans hnext, ih hrest⟩
  | case3 level tag children rest ihChildren ihRest =>
      obtain ⟨htag, hvoid, hpreserved, hchildren, hrest⟩ := Forest.isRegular_element.1 h
      split
      · exact Forest.isRegular_element.2
          ⟨htag, hvoid, hpreserved, ihChildren hchildren, ihRest hrest⟩
      · exact Forest.isRegular_element.2
          ⟨hshift level htag, hvoid, hpreserved, ihChildren hchildren, ihRest hrest⟩
  | case4 level tag rest ih =>
      obtain ⟨htag, hrest⟩ := Forest.isRegular_selfClosing.1 h
      exact Forest.isRegular_selfClosing.2 ⟨hshift level htag, ih hrest⟩
  | case5 level head body chain rest ih =>
      obtain ⟨hhead, hbody, hchain, hrest⟩ := Forest.isRegular_flow.1 h
      exact Forest.isRegular_flow.2 ⟨hhead, hbody, hchain, ih hrest⟩

theorem Tag.shift_of_settled {tag : Tag} {level : Nat}
    (h : (level == 0 || tag.isClean) = true) : tag.shift (config.indentation level) = tag := by
  rcases Bool.or_eq_true_iff.1 h with hlevel | hclean
  · obtain rfl : level = 0 := by
      simpa using hlevel
    rw [config.indentation_zero, shift_nil]
  · exact shift_of_isClean hclean

/-- A settled forest does not drift. -/
theorem Forest.drift_of_isSettled {F : Forest} {level : Nat}
    (h : F.isSettled config level = true) : F.drift config level = F := by
  match F with
  | .nil => rfl
  | .text content rest =>
      have hrest : rest.isSettled config level = true := h
      rw [Forest.drift, Forest.drift_of_isSettled hrest]
  | .element tag children rest =>
      simp only [Forest.isSettled, Bool.and_eq_true] at h
      obtain ⟨⟨htag, hchildren⟩, hrest⟩ := h
      rw [Forest.drift, Forest.drift_of_isSettled hchildren, Forest.drift_of_isSettled hrest]
      split
      · rfl
      · rename_i hflat
        rw [Bool.not_eq_true] at hflat
        rw [hflat, Bool.or_false] at htag
        rw [Tag.shift_of_settled htag]
  | .selfClosing tag rest =>
      simp only [Forest.isSettled, Bool.and_eq_true] at h
      obtain ⟨htag, hrest⟩ := h
      rw [Forest.drift, Forest.drift_of_isSettled hrest, Tag.shift_of_settled htag]
  | .flow head body chain rest =>
      have hrest : rest.isSettled config level = true := h
      rw [Forest.drift, Forest.drift_of_isSettled hrest]

theorem Forest.isSettled_of_isClean {F : Forest} (h : F.isClean = true) (level : Nat) :
    F.isSettled config level = true := by
  fun_induction Forest.isSettled config level F with
  | case1 level => rfl
  | case2 level content rest ih =>
      obtain ⟨-, -, hrest⟩ := Forest.isClean_text.1 h
      exact ih hrest
  | case3 level tag children rest ihChildren ihRest =>
      obtain ⟨htag, -, -, hchildren, hrest⟩ := Forest.isClean_element.1 h
      simp [htag, ihChildren hchildren, ihRest hrest]
  | case4 level tag rest ih =>
      obtain ⟨htag, hrest⟩ := Forest.isClean_selfClosing.1 h
      simp [htag, ih hrest]
  | case5 level head body chain rest ih =>
      obtain ⟨-, -, -, hrest⟩ := Forest.isClean_flow.1 h
      exact ih hrest

/-- What is written behind an indentation still is after a drift. -/
theorem Forest.isFlat_drift {tag : Tag} {children : Forest} {level : Nat}
    (h : Forest.isFlat config level tag children = false) :
    Forest.isFlat config level (tag.shift (config.indentation level))
      (children.drift config (level + 1)) = false := by
  rw [Forest.isFlat, Bool.and_eq_false_iff, Bool.not_eq_false'] at h
  rw [Forest.isFlat, Forest.isInline_drift, Bool.and_eq_false_iff, Bool.not_eq_false']
  rcases h with hinline | hstacked
  · exact Or.inl hinline
  · exact Or.inr (Tag.isStacked_shift hstacked)

theorem Tag.settled_of_shift_shift {tag : Tag} {level : Nat} (h : tag.isRegular = true)
    (hshift : (tag.shift (config.indentation level)).shift (config.indentation level) =
      tag.shift (config.indentation level)) : (level == 0 || tag.isClean) = true := by
  by_cases hlevel : level = 0
  · simp [hlevel]
  · rw [isClean_of_shift_shift (isReadable_of_isRegular h) (isLine_indentation _ _)
      (config.indentation_ne_nil hlevel) hshift, Bool.or_true]

/-- A forest whose drift does not drift any more is settled. -/
theorem Forest.isSettled_of_drift {F : Forest} {level : Nat} (hregular : F.isRegular = true)
    (h : ((F.drift config level).drift config level).trimmed = (F.drift config level).trimmed) :
    F.isSettled config level = true := by
  match F with
  | .nil => rfl
  | .text content rest =>
      obtain ⟨-, -, hrest⟩ := Forest.isRegular_text.1 hregular
      simp only [Forest.drift, Forest.trimmed, Forest.text.injEq, true_and] at h
      rw [Forest.isSettled]
      exact Forest.isSettled_of_drift hrest h
  | .element tag children rest =>
      obtain ⟨htag, -, -, hchildren, hrest⟩ := Forest.isRegular_element.1 hregular
      simp only [Forest.drift, Forest.trimmed, Forest.element.injEq] at h
      obtain ⟨hsame, hinside, hothers⟩ := h
      simp only [Forest.isSettled, Bool.and_eq_true]
      refine ⟨⟨?_, Forest.isSettled_of_drift hchildren hinside⟩,
        Forest.isSettled_of_drift hrest hothers⟩
      cases hflat : Forest.isFlat config level tag children with
      | true => rw [Bool.or_true]
      | false =>
          simp only [hflat, Forest.isFlat_drift hflat, Bool.false_eq_true, if_false] at hsame
          rw [Bool.or_false]
          exact Tag.settled_of_shift_shift htag hsame
  | .selfClosing tag rest =>
      obtain ⟨htag, hrest⟩ := Forest.isRegular_selfClosing.1 hregular
      simp only [Forest.drift, Forest.trimmed, Forest.selfClosing.injEq] at h
      obtain ⟨hsame, hothers⟩ := h
      simp only [Forest.isSettled, Bool.and_eq_true]
      exact ⟨Tag.settled_of_shift_shift htag hsame, Forest.isSettled_of_drift hrest hothers⟩
  | .flow head body chain rest =>
      obtain ⟨-, -, -, hrest⟩ := Forest.isRegular_flow.1 hregular
      simp only [Forest.drift, Forest.trimmed, Forest.flow.injEq, true_and] at h
      rw [Forest.isSettled]
      exact Forest.isSettled_of_drift hrest h

end Drifting

section Below

theorem isGap_below {blanks : List Text} (h : ∀ line ∈ blanks, line = []) :
    Text.IsGap (below blanks) := by
  intro c hc
  obtain ⟨line, hline, hc⟩ := List.mem_flatMap.1 hc
  rw [h line hline] at hc
  rw [List.mem_singleton.1 hc]
  decide

theorem Text.IsGap.append_indentation {g : Text} (hg : Text.IsGap g) (config : Config)
    (level : Nat) : Text.IsGap (g ++ '\n' :: config.indentation level) :=
  hg.append (Text.isGap_cons.2 ⟨by decide, isGap_indentation config level⟩)

theorem rows_below (ls : List Text) : Text.rows (below ls) = ls.flatMap Text.rows := by
  by_cases hne : ls = []
  · rw [hne]
    rfl
  · rw [below_of_ne_nil hne, Text.rows_cons_of_isSpace (by decide), Text.rows_unlines]

/-- The lines of a text behind a lead, with a line in front of them. -/
theorem below_map_append (lead t : Text) :
    below ((Text.lines t).map (lead ++ ·)) = '\n' :: lead ++ Text.shift lead t := by
  rw [below_of_ne_nil (by simpa using Text.lines_ne_nil t), Text.unlines_map_append]
  rfl

end Below

namespace Context

section Bringing

/-- Placed on a page at `level`, the items leave it at level `after` with more lines, and the text
of these lines has the property. -/
def Brings (ctx : Context) (level : Nat) (items : List Item) (after : Nat) (P : Text → Prop) :
    Prop :=
  ∀ (page : Page) (j : Journal), page.level = level →
    ∃ ls, ((ctx.placeAll page items).run j).1.sheet.toLines = page.sheet.toLines ++ ls ∧
      ((ctx.placeAll page items).run j).1.level = after ∧ P (below ls)

variable {ctx : Context} {level middle after : Nat} {items others : List Item}
variable {P Q : Text → Prop}

theorem brings_nil (h : P []) : ctx.Brings level [] level P :=
  fun _ _ hlevel => ⟨[], (List.append_nil _).symm, hlevel, h⟩

theorem Brings.imp (h : ctx.Brings level items after P) (himp : ∀ t, P t → Q t) :
    ctx.Brings level items after Q := by
  intro page j hlevel
  obtain ⟨ls, hlines, hafter, hP⟩ := h page j hlevel
  exact ⟨ls, hlines, hafter, himp _ hP⟩

theorem Brings.append (h : ctx.Brings level items middle P)
    (h' : ctx.Brings middle others after Q) :
    ctx.Brings level (items ++ others) after fun t => ∃ s u, t = s ++ u ∧ P s ∧ Q u := by
  intro page j hlevel
  obtain ⟨ls, hlines, hmiddle, hP⟩ := h page j hlevel
  obtain ⟨ms, hmore, hafter, hQ⟩ := h' ((ctx.placeAll page items).run j).1
    ((ctx.placeAll page items).run j).2 hmiddle
  rw [placeAll_append_run]
  refine ⟨ls ++ ms, ?_, hafter, below ls, below ms, below_append ls ms, hP, hQ⟩
  rw [hmore, hlines, List.append_assoc]

/-- An item brings its lines behind a gap.  Empty lines may be left out. -/
theorem brings_item (item : Item) {ls : List Text} (hunit : item.isUnit = true)
    (hyields : Yields (ctx.itemLines (ctx.config.indentation (item.levelAt level)) item) ls) :
    ctx.Brings level [item] (item.levelAfter level) fun t => ∃ g added, t = g ++ below added ∧
      Text.IsGap g ∧ solid added = solid ls ∧ ∀ line ∈ added, line ∈ ls := by
  rintro page j rfl
  obtain ⟨blanks, hblanks, hready⟩ := page.extends_ready item
  obtain ⟨added, hadded, hsolid, hmem⟩ := (page.ready item).sheet.exists_writeAll ls
  obtain ⟨-, hlevel, -⟩ := ctx.place_run page item j
  have hplaced : ((ctx.place page item).run j).1 = ((page.ready item).write ls).behind item := by
    rw [place_eq ctx page hunit, ← hyields j]
    rfl
  refine ⟨blanks ++ added, ?_, hlevel, below blanks, added, below_append blanks added,
    isGap_below hblanks, hsolid, hmem⟩
  have hrun : ((ctx.placeAll page [item]).run j).1 = ((ctx.place page item).run j).1 := rfl
  rw [hrun, hplaced, Page.sheet_behind, Page.write, hadded, hready, List.append_assoc]

theorem brings_lines (item : Item) {ls : List Text} (hunit : item.isUnit = true)
    (hyields : Yields (ctx.itemLines (ctx.config.indentation (item.levelAt level)) item) ls)
    (hsolid : ∀ line ∈ ls, line ≠ []) :
    ctx.Brings level [item] (item.levelAfter level) fun t => ∃ g, t = g ++ below ls ∧
      Text.IsGap g := by
  refine (brings_item item hunit hyields).imp ?_
  rintro t ⟨g, added, rfl, hg, hsame, hmem⟩
  rw [solid_of_forall_ne_nil hsolid,
    solid_of_forall_ne_nil fun line hline => hsolid line (hmem line hline)] at hsame
  exact ⟨g, by rw [hsame], hg⟩

/-- The lines of finished text behind the indentation shift it. -/
theorem brings_shifted (item : Item) {t : Text} (hunit : item.isUnit = true)
    (ht : Text.IsFinished t)
    (hyields : Yields (ctx.itemLines (ctx.config.indentation (item.levelAt level)) item)
      ((Text.lines t).map (ctx.config.indentation (item.levelAt level) ++ ·))) :
    ctx.Brings level [item] (item.levelAfter level) fun u => ∃ g, Text.IsGap g ∧
      u = g ++ Text.shift (ctx.config.indentation (item.levelAt level)) t := by
  refine (brings_lines item hunit hyields (ne_nil_of_mem_map ht)).imp ?_
  rintro u ⟨g, rfl, hg⟩
  refine ⟨g ++ '\n' :: ctx.config.indentation (item.levelAt level), ?_, ?_⟩
  · exact hg.append_indentation _ _
  · rw [below_map_append]
    simp

variable {tag : Tag} (hregular : tag.isRegular = true)
include hregular

/-- The tag of an element, or a tag that is a whole element. -/
theorem brings_tag {item : Item} {ending : TagEnd} (hunit : item.isUnit = true)
    (hat : item.levelAt level = level)
    (hlines : ctx.itemLines (ctx.config.indentation level) item =
      pure (ctx.tagLines (ctx.config.indentation level) tag ending)) :
    ctx.Brings level [item] (item.levelAfter level) fun t => ∃ g x, t = g ++ x ∧ Text.IsGap g ∧
      (tag.shift (ctx.config.indentation level)).Spells ending x := by
  have hyields : Yields (ctx.itemLines (ctx.config.indentation (item.levelAt level)) item)
      ((Text.lines (tag.print ctx.config (ctx.config.indentation level).length ending)).map
        (ctx.config.indentation (item.levelAt level) ++ ·)) := by
    rw [hat, hlines, tagLines_eq ctx hregular]
    exact yields_pure _
  refine (brings_shifted item hunit (Tag.isFinished_print hregular _ _ _) hyields).imp ?_
  rintro t ⟨g, hg, rfl⟩
  have hname : isTagName tag.name = true := (Tag.isRegular_cases hregular).1
  have hreadable := Tag.isReadable_of_isRegular hregular
  rw [hat]
  exact ⟨g, _, rfl, hg, (Tag.spells_print hname _ _ _).shift hreadable (isGap_indentation _ _)⟩

/-- An element on one line behind a stacked tag: the tag is written behind the indentation. -/
theorem brings_inline_of_isStacked {content : Text} (hcontent : Text.IsLine content)
    (hstacked : tag.isStacked ctx.config (ctx.config.indentation level).length .opening = true) :
    ctx.Brings level [.inline tag content] level fun t => ∃ g x,
      t = g ++ (x ++ (content ++ closingTag tag.name)) ∧ Text.IsGap g ∧
        (tag.shift (ctx.config.indentation level)).Spells .opening x := by
  have hname : isTagName tag.name = true := (Tag.isRegular_cases hregular).1
  have hreadable := Tag.isReadable_of_isRegular hregular
  have hprinted := Tag.isFinished_print hregular ctx.config
    (ctx.config.indentation level).length .opening
  have hyields : Yields (ctx.itemLines (ctx.config.indentation level) (.inline tag content))
      ((Text.lines (tag.print ctx.config (ctx.config.indentation level).length .opening ++
        (content ++ closingTag tag.name))).map (ctx.config.indentation level ++ ·)) := by
    rw [itemLines, inlineLines_of_isStacked ctx hregular hcontent hstacked]
    exact yields_pure _
  refine (brings_shifted (.inline tag content) rfl
    (hprinted.append ((isFinished_closingTag hname).append_left hcontent)) hyields).imp ?_
  rintro t ⟨g, hg, rfl⟩
  have hsame : Text.shift (ctx.config.indentation level) (content ++ closingTag tag.name) =
      content ++ closingTag tag.name :=
    Text.shift_of_isLine (isLine_append.2 ⟨hcontent, isLine_closingTag hname⟩)
  refine ⟨g, Text.shift (ctx.config.indentation level)
    (tag.print ctx.config (ctx.config.indentation level).length .opening), ?_, hg,
    (Tag.spells_print hname _ _ _).shift hreadable (isGap_indentation _ _)⟩
  rw [Text.shift_append]
  exact congrArg _ (congrArg _ hsame)

theorem brings_inline_of_not_isStacked (content : Text)
    (hstacked : tag.isStacked ctx.config (ctx.config.indentation level).length .opening = false) :
    ctx.Brings level [.inline tag content] level fun t => ∃ g x,
      t = g ++ (x ++ (content ++ closingTag tag.name)) ∧ Text.IsGap g ∧
        tag.Spells .opening x := by
  have hyields : Yields (ctx.itemLines (ctx.config.indentation level) (.inline tag content))
      [ctx.config.indentation level ++ tag.inline .opening ++
        (content ++ closingTag tag.name)] := by
    rw [itemLines, inlineLines_of_not_isStacked ctx hregular _ hstacked]
    exact yields_pure _
  refine (brings_lines (.inline tag content) rfl hyields (by simp [Tag.inline])).imp ?_
  rintro t ⟨g, rfl, hg⟩
  exact ⟨g ++ '\n' :: ctx.config.indentation level, tag.inline .opening, by simp [below],
    hg.append_indentation _ _, Tag.spells_inline tag .opening⟩

/-- An element that is written on one line. -/
theorem brings_inline {children : Forest} (hinline : children.isInline = true)
    (hline : Text.IsLine children.inlineText) :
    ctx.Brings level [.inline tag children.inlineText] level fun t => ∃ g x,
      t = g ++ (x ++ (children.inlineText ++ closingTag tag.name)) ∧ Text.IsGap g ∧
        (if Forest.isFlat ctx.config level tag children then tag
          else tag.shift (ctx.config.indentation level)).Spells .opening x := by
  rw [Forest.isFlat, hinline, Bool.true_and]
  cases hstacked : tag.isStacked ctx.config (ctx.config.indentation level).length .opening with
  | true => exact brings_inline_of_isStacked hregular hline hstacked
  | false => exact brings_inline_of_not_isStacked hregular _ hstacked

end Bringing

end Context

section Layout

variable {spacing : Spacing} {config : Config} {collaborators : Collaborators} {n level : Nat}

theorem Forest.Spells.gap_append {F : Forest} {g t : Text} (hregular : F.isRegular = true)
    (h : F.Spells spacing n t) (hg : Text.IsGap g) : F.Spells spacing n (g ++ t) :=
  h.regap hregular (Text.afterSpaces_gap_append hg t).symm

theorem Forest.Spells.text_append {content g t : Text} {rest : Forest}
    (hleaf : isLeafText content = true) (hrest : rest.isRegular = true) (hg : Text.IsGap g)
    (h : rest.Spells spacing n t) :
    (Forest.text content rest).Spells spacing n (g ++ Text.strip content ++ t) := by
  -- The gap behind the text belongs to it.
  obtain ⟨gap, hgap, ht⟩ := Text.exists_gap t
  refine ⟨g ++ Text.strip content ++ gap, afterSpaces t, ?_, ?_, ?_, Text.isTight_afterSpaces t,
    h.regap hrest (Text.isTight_afterSpaces t).symm⟩
  · rw [List.append_assoc _ gap, ← ht]
  · rw [Text.strip_append_blank hgap.isBlankText, Text.strip_blank_append hg.isBlankText,
      Text.strip_strip]
  · intro c hc
    rcases List.mem_append.1 hc with hc | hc
    · rcases List.mem_append.1 hc with hc | hc
      · exact isTextChar_of_isSpace (hg c hc)
      · have hplain := (isLeafText_cases hleaf).2 c (Text.mem_of_mem_strip hc)
        simp [isTextChar, hplain]
    · exact isTextChar_of_isSpace (hgap c hc)

theorem Forest.Spells.flow_append {head : FlowHead} {body rest : Forest} {chain : Chain}
    {s t : Text} (hrest : rest.isRegular = true)
    (h : (Forest.flow head body chain .nil).Spells spacing n s) (h' : rest.Spells spacing n t) :
    (Forest.flow head body chain rest).Spells spacing n (s ++ t) := by
  obtain ⟨g, x, b, clauses, tail, rfl, hg, hx, hrows, hb, hclauses, hexact, htail⟩ := h
  exact ⟨g, x, b, clauses, tail ++ t, by simp, hg, hx, hrows, hb, hclauses, hexact,
    h'.gap_append hrest htail⟩

/-- A block brings a spelling of itself: its rows are those of its layout. -/
theorem Forest.brings_block {head : FlowHead} {body : Forest} {chain : Chain}
    (hclean : (Forest.flow head body chain .nil).isClean = true) (n level : Nat) :
    Context.Brings ⟨config, collaborators, formatWithin config collaborators n⟩ level
      [.block (Forest.flowSource spacing head body chain)] level
      ((Forest.flow head body chain .nil).Spells spacing n) := by
  let ctx : Context := ⟨config, collaborators, formatWithin config collaborators n⟩
  let block : Item := .block (Forest.flowSource spacing head body chain)
  have hsettles : ctx.Settles block :=
    Forest.settles_items (Forest.isRegular_of_isClean hclean) n block List.mem_cons_self
  obtain ⟨ls, -, hyields⟩ := hsettles level
  refine (Context.brings_item block rfl hyields).imp ?_
  rintro t ⟨g, added, rfl, hg, hsolid, -⟩
  have hspelled : (Forest.flow head body chain .nil).SpelledBy spacing n
      ((Forest.flow head body chain .nil).layoutRows spacing ctx level {}) :=
    Forest.spelledBy_layoutRows hclean n level {}
  refine hspelled.2 _ ?_
  have hlines : ((ctx.itemsLines level [block]).run {}).1 = solid ls := by
    rw [← hyields {}]
    exact List.append_nil _
  rw [Text.rows_gap_append hg, rows_below, ← Text.flatMap_rows_solid, hsolid, ← hlines]
  rfl

section Constructors

variable {ctx : Context} {tag : Tag} {children rest : Forest}

theorem Forest.brings_text {content : Text}
    (hregular : (Forest.text content rest).isRegular = true)
    (hothers : ctx.Brings level (rest.items spacing) level
      ((rest.drift ctx.config level).Spells spacing n)) :
    ctx.Brings level ((Forest.text content rest).items spacing) level
      (((Forest.text content rest).drift ctx.config level).Spells spacing n) := by
  obtain ⟨hleaf, -, hrest⟩ := Forest.isRegular_text.1 hregular
  have hyields : Yields (ctx.itemLines (ctx.config.indentation level) (.text content))
      [ctx.config.indentation level ++ Text.strip content] := by
    rw [Context.itemLines, if_neg (by simp [(isLeafText_cases hleaf).1]),
      textLines_of_isLeafText hleaf]
    exact yields_pure _
  have hsolid : Text.strip content ≠ [] := (isFinished_strip hleaf).ne_nil
  have hitem := Context.brings_lines (.text content)
    (by simp [Item.isUnit, (isLeafText_cases hleaf).1]) hyields (by simp [hsolid])
  rw [Forest.drift]
  refine (hitem.append hothers).imp ?_
  rintro t ⟨s, u, rfl, ⟨g, rfl, hg⟩, hu⟩
  have hgap : Text.IsGap (g ++ '\n' :: ctx.config.indentation level) :=
    hg.append_indentation ctx.config level
  have hspells := Forest.Spells.text_append hleaf (Forest.isRegular_drift hrest level) hgap hu
  simpa [below] using hspells

/-- An element on one line stays where it is. -/
theorem Forest.brings_element_of_isInline
    (hregular : (Forest.element tag children rest).isRegular = true)
    (hinline : children.isInline = true)
    (hothers : ctx.Brings level (rest.items spacing) level
      ((rest.drift ctx.config level).Spells spacing n)) :
    ctx.Brings level ((Forest.element tag children rest).items spacing) level
      (((Forest.element tag children rest).drift ctx.config level).Spells spacing n) := by
  obtain ⟨htag, -, -, hchildren, -⟩ := Forest.isRegular_element.1 hregular
  have hline := Forest.isLine_inlineText hchildren
  rw [Forest.items, if_pos hinline, Forest.drift, Forest.drift_of_isInline hinline _]
  refine ((Context.brings_inline htag hinline hline).append hothers).imp ?_
  rintro t ⟨s, u, rfl, ⟨g, x, rfl, hg, hx⟩, hu⟩
  refine ⟨g, x, children.inlineText, u, ?_, hg, hx,
    Forest.spells_inlineText hchildren hinline, fun _ => hline, hu⟩
  rw [apply_ite Tag.name, show (tag.shift _).name = tag.name from rfl, ite_self]
  simp

/-- An element that is opened moves with its tag, and its children move one level further. -/
theorem Forest.brings_element_of_not_isInline
    (hregular : (Forest.element tag children rest).isRegular = true)
    (hinline : children.isInline = false)
    (hinside : ctx.Brings (level + 1) (children.items spacing) (level + 1)
      ((children.drift ctx.config (level + 1)).Spells spacing n))
    (hothers : ctx.Brings level (rest.items spacing) level
      ((rest.drift ctx.config level).Spells spacing n)) :
    ctx.Brings level ((Forest.element tag children rest).items spacing) level
      (((Forest.element tag children rest).drift ctx.config level).Spells spacing n) := by
  obtain ⟨htag, -, -, hchildren, -⟩ := Forest.isRegular_element.1 hregular
  have hopening : ctx.Brings level [.openTag tag] (level + 1) fun t => ∃ g x, t = g ++ x ∧
      Text.IsGap g ∧ (tag.shift (ctx.config.indentation level)).Spells .opening x :=
    Context.brings_tag htag rfl rfl rfl
  have hclosing : ctx.Brings (level + 1) [.closeTag tag.name] level fun t => ∃ g, t = g ++
      below [ctx.config.indentation level ++ Context.closingTag tag.name] ∧ Text.IsGap g :=
    Context.brings_lines (.closeTag tag.name) rfl (yields_pure _) (by simp [Context.closingTag])
  have hflat : Forest.isFlat ctx.config level tag children = false := by
    rw [Forest.isFlat, hinline, Bool.false_and]
  rw [Forest.items, if_neg (by simp [hinline]), Forest.drift, hflat, if_neg (by simp)]
  refine (hopening.append (hinside.append (hclosing.append hothers))).imp ?_
  rintro t ⟨-, -, rfl, ⟨g, x, rfl, hg, hx⟩, inner, -, rfl, hs, -, tail, rfl, ⟨k, rfl, hk⟩, hu⟩
  have hgap : Text.IsGap (k ++ '\n' :: ctx.config.indentation level) :=
    hk.append_indentation ctx.config level
  refine ⟨g, x, inner ++ (k ++ '\n' :: ctx.config.indentation level), tail, ?_, hg, hx,
    hs.append_gap (Forest.isRegular_drift hchildren (level + 1)) hgap, ?_, hu⟩
  · simp [below, Tag.shift]
  · rw [Forest.isInline_drift, hinline]
    rintro ⟨⟩

theorem Forest.brings_selfClosing
    (hregular : (Forest.selfClosing tag rest).isRegular = true)
    (hothers : ctx.Brings level (rest.items spacing) level
      ((rest.drift ctx.config level).Spells spacing n)) :
    ctx.Brings level ((Forest.selfClosing tag rest).items spacing) level
      (((Forest.selfClosing tag rest).drift ctx.config level).Spells spacing n) := by
  obtain ⟨htag, -⟩ := Forest.isRegular_selfClosing.1 hregular
  have hitem : ctx.Brings level [.selfClosingTag tag] level fun t => ∃ g x, t = g ++ x ∧
      Text.IsGap g ∧ (tag.shift (ctx.config.indentation level)).Spells .selfClosing x :=
    Context.brings_tag htag rfl rfl rfl
  refine (hitem.append hothers).imp ?_
  rintro t ⟨s, u, rfl, ⟨g, x, rfl, hg, hx⟩, hu⟩
  exact ⟨g, x, u, List.append_assoc g x u, hg, hx, hu⟩

end Constructors

/-- The items of a regular forest bring a spelling of its drift. -/
theorem Forest.brings_items {F : Forest} (hregular : F.isRegular = true) (n level : Nat) :
    Context.Brings ⟨config, collaborators, formatWithin config collaborators n⟩ level
      (F.items spacing) level ((F.drift config level).Spells spacing n) := by
  fun_induction Forest.drift config level F with
  | case1 level => exact Context.brings_nil Text.isGap_nil
  | case2 level content rest ih =>
      obtain ⟨-, -, hrest⟩ := Forest.isRegular_text.1 hregular
      exact Forest.brings_text hregular (ih hrest)
  | case3 level tag children rest ihChildren ihRest =>
      obtain ⟨-, -, -, hchildren, hrest⟩ := Forest.isRegular_element.1 hregular
      cases hinline : children.isInline with
      | true => exact Forest.brings_element_of_isInline hregular hinline (ihRest hrest)
      | false =>
          exact Forest.brings_element_of_not_isInline hregular hinline (ihChildren hchildren)
            (ihRest hrest)
  | case4 level tag rest ih =>
      obtain ⟨-, hrest⟩ := Forest.isRegular_selfClosing.1 hregular
      exact Forest.brings_selfClosing hregular (ih hrest)
  | case5 level head body chain rest ih =>
      obtain ⟨hhead, hbody, hchain, hrest⟩ := Forest.isRegular_flow.1 hregular
      have hblock : Context.Brings ⟨config, collaborators, formatWithin config collaborators n⟩
          level [.block (Forest.flowSource spacing head body chain)] level
          ((Forest.flow head body chain .nil).Spells spacing n) :=
        Forest.brings_block (Forest.isClean_flow.2 ⟨hhead, hbody, hchain, rfl⟩) n level
      refine (hblock.append (ih hrest)).imp ?_
      rintro t ⟨s, u, rfl, hs, hu⟩
      exact Forest.Spells.flow_append (Forest.isRegular_drift hrest level) hs hu

/-- The layout of a spelling is a spelling of the drift. -/
theorem Forest.Spells.drift_formatMarkup {F : Forest} {t : Text} (hregular : F.isRegular = true)
    (h : F.Spells spacing config.maxDepth t) (collaborators : Collaborators) (j : Journal) :
    (F.drift config 0).Spells spacing config.maxDepth
      ((formatMarkup config collaborators 0 t).run j).1 := by
  rw [← Nat.sub_zero config.maxDepth] at h ⊢
  rw [h.formatMarkup_run hregular j]
  obtain ⟨ls, hlines, -, hspells⟩ :=
    Forest.brings_items hregular (config.maxDepth - 0) 0 {} j rfl
  rw [Sheet.text, hlines, show Sheet.toLines {} = [] from rfl, List.nil_append]
  by_cases hne : ls = []
  · rw [hne] at hspells ⊢
    exact hspells
  · rw [below_of_ne_nil hne] at hspells
    have hnewline : Text.IsGap ['\n'] := Text.isGap_cons.2 ⟨by decide, Text.isGap_nil⟩
    exact hspells.regap (Forest.isRegular_drift hregular 0)
      (Text.afterSpaces_gap_append hnewline (Text.unlines ls))

end Layout

end RazorLayout
