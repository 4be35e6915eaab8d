import RazorLayout.Proofs.Forest.Source
import RazorLayout.Proofs.Layout.SolidLines

/-!
# The rows of a printed tag

A tag is printed on one row, or on one row for its name, one for each attribute and one for its
ending.  What is put behind the tag, the content of an inline element, ends the last row.

Results.  `rows_tagLines` and `rows_inlineLines`: the rows that the layout prints are `Tag.rows`.
`Tag.exists_spelling`: a text with these rows starts with a spelling of the tag.
-/

namespace RazorLayout

namespace Tag

section Definitions

variable (config : Config) (width : Nat) (tag : Tag) (ending : TagEnd) (behind : Text)

/-- The rows of a tag at an indentation of `width`, with `behind` at the end of the last one. -/
def rows : List Text :=
  if tag.isStacked config width ending then
    ('<' :: tag.name) :: (tag.attributes.map Attribute.render ++ [ending.stackedText ++ behind])
  else [tag.inline ending ++ behind]

end Definitions

section Printing

theorem rows_eq_singleton {t : Text} {c : Char} {cs : Text} (ht : t = c :: cs)
    (hc : isSpace c = false) (hline : Text.IsLine t) : Text.rows t = [t] := by
  have htight : Text.IsTight t := ht ▸ Text.isTight_cons cs hc
  rw [Text.rows_of_isLine hline, Text.row_of_isTight (by simp [ht]) htight]

theorem isLine_stackedText (ending : TagEnd) : Text.IsLine ending.stackedText := by
  cases ending <;> decide

theorem inline_eq_stem (tag : Tag) (ending : TagEnd) :
    tag.inline ending = tag.stem ++ ending.inlineText := rfl

theorem isLine_inline {tag : Tag} (h : tag.isClean = true) (ending : TagEnd) :
    Text.IsLine (tag.inline ending) := by
  rw [inline_eq_stem, isLine_append]
  refine ⟨isLine_stem h, ?_⟩
  cases ending <;> decide

theorem rows_render {a : Attribute} (h : a.isClean = true) : Text.rows a.render = [a.render] := by
  obtain ⟨c, cs, hrender, hc, -⟩ := Attribute.head?_render
    (Attribute.isPrintable_of_isReadable (Attribute.isReadable_of_isClean h))
  have hspace : isSpace c = false := by
    by_contra hspace
    rw [isBlank_of_isSpace (by simpa using hspace)] at hc
    cases hc
  exact rows_eq_singleton hrender hspace (Attribute.isLine_render h)

theorem name_isEmpty {tag : Tag} (h : tag.isReadable = true) : tag.name.isEmpty = false := by
  obtain ⟨c, cs, hname, -⟩ := isTagName_cases (isReadable_cases h).1
  rw [hname]
  rfl

variable {tag : Tag} (hclean : tag.isClean = true)
include hclean

theorem rows_name : Text.rows ('<' :: tag.name) = ['<' :: tag.name] := by
  obtain ⟨-, -, -, -, hchars⟩ := isTagName_cases (isClean_cases hclean).1
  exact rows_eq_singleton rfl (by decide) (isLine_cons.2 ⟨by decide, isLine_name hchars⟩)

theorem rows_attributes (config : Config) :
    (tag.attributes.map fun a => config.unit ++ a.render).flatMap Text.rows =
      tag.attributes.map Attribute.render := by
  have hall : ∀ attributes : List Attribute, (∀ a ∈ attributes, a.isClean = true) →
      (attributes.map fun a => config.unit ++ a.render).flatMap Text.rows =
        attributes.map Attribute.render := by
    intro attributes hattributes
    induction attributes with
    | nil => rfl
    | cons a attributes ih =>
        have hrest := ih fun b hb => hattributes b (List.mem_cons_of_mem a hb)
        rw [List.map_cons, List.flatMap_cons, hrest, Config.unit,
          Text.rows_gap_append (Text.isGap_spaces _),
          rows_render (hattributes a List.mem_cons_self)]
        rfl
  exact hall _ (isClean_cases hclean).2

/-- The lines of a stacked tag, with something behind it. -/
theorem flatMap_rows_stacked (config : Config) (ending : TagEnd) {behind : Text}
    (hbehind : Text.IsLine behind) :
    (('<' :: tag.name) :: ((tag.attributes.map fun a => config.unit ++ a.render) ++
        [ending.stackedText ++ behind])).flatMap Text.rows =
      ('<' :: tag.name) :: (tag.attributes.map Attribute.render ++
        [ending.stackedText ++ behind]) := by
  have hlast : Text.rows (ending.stackedText ++ behind) = [ending.stackedText ++ behind] := by
    have hline : Text.IsLine (ending.stackedText ++ behind) :=
      isLine_append.2 ⟨isLine_stackedText ending, hbehind⟩
    cases ending with
    | opening => exact rows_eq_singleton (c := '>') rfl (by decide) hline
    | selfClosing => exact rows_eq_singleton (c := '/') rfl (by decide) hline
  rw [List.flatMap_cons, List.flatMap_append, rows_name hclean, rows_attributes hclean]
  simp [hlast]

theorem rows_inline (ending : TagEnd) {behind : Text} (hbehind : Text.IsLine behind) :
    Text.rows (tag.inline ending ++ behind) = [tag.inline ending ++ behind] :=
  rows_eq_singleton rfl (by decide) (isLine_append.2 ⟨isLine_inline hclean ending, hbehind⟩)

/-- The lines of a printed tag. -/
theorem lines_print (config : Config) (width : Nat) (ending : TagEnd) :
    Text.lines (tag.print config width ending) =
      if tag.isStacked config width ending then
        ('<' :: tag.name) :: (tag.attributes.map fun a => config.unit ++ a.render) ++
          [ending.stackedText]
      else [tag.inline ending] := by
  rw [print, if_neg (by simp [name_isEmpty (isReadable_of_isClean hclean)])]
  split
  · refine Text.lines_unlines (by simp) ?_
    obtain ⟨hname, hattributes⟩ := isClean_cases hclean
    obtain ⟨-, -, -, -, hchars⟩ := isTagName_cases hname
    intro line hmem
    rcases List.mem_append.1 hmem with hmem | hmem
    · rcases List.mem_cons.1 hmem with rfl | hmem
      · exact isLine_cons.2 ⟨by decide, isLine_name hchars⟩
      · obtain ⟨a, ha, rfl⟩ := List.mem_map.1 hmem
        exact isLine_append.2 ⟨isLine_spaces _, Attribute.isLine_render (hattributes a ha)⟩
    · rw [List.mem_singleton.1 hmem]
      exact isLine_stackedText _
  · exact Text.lines_of_isLine (isLine_inline hclean ending)

end Printing

end Tag

namespace Context

section Lines

variable (ctx : Context) {indent : Text} (hindent : Text.IsGap indent) {tag : Tag}
variable (hclean : tag.isClean = true)
include hindent hclean

/-- The lines of a tag have its rows. -/
theorem rows_tagLines (ending : TagEnd) :
    (ctx.tagLines indent tag ending).flatMap Text.rows =
      tag.rows ctx.config indent.length ending [] := by
  rw [tagLines, Text.flatMap_rows_solid, Text.flatMap_rows_map_append hindent,
    Text.flatMap_rows_lines, Tag.print,
    if_neg (by simp [Tag.name_isEmpty (Tag.isReadable_of_isClean hclean)]), Tag.rows]
  split
  · rw [Tag.stacked, Text.rows_unlines]
    have hrows := Tag.flatMap_rows_stacked hclean ctx.config ending isLine_nil
    rw [List.append_nil] at hrows ⊢
    exact hrows
  · have hrows := Tag.rows_inline hclean ending isLine_nil
    rw [List.append_nil] at hrows
    rw [hrows, List.append_nil]

/-- The lines of an inline element have the rows of its tag, with the content behind it. -/
theorem rows_inlineLines {content : Text} (hcontent : Text.IsLine content) :
    (ctx.inlineLines indent tag content).flatMap Text.rows =
      tag.rows ctx.config indent.length .opening (content ++ closingTag tag.name) := by
  have hname : isTagName tag.name = true := (Tag.isClean_cases hclean).1
  have hline : Text.IsLine (content ++ closingTag tag.name) :=
    isLine_append.2 ⟨hcontent, isLine_closingTag hname⟩
  have hempty : ¬ tag.name.isEmpty = true := by
    simp [Tag.name_isEmpty (Tag.isReadable_of_isClean hclean)]
  simp only [inlineLines, Tag.rows]
  split
  · rename_i hstacked
    rw [Tag.lines_print hclean, if_pos hstacked, appendLast_concat, Text.flatMap_rows_solid,
      Text.flatMap_rows_map_append hindent]
    exact Tag.flatMap_rows_stacked hclean ctx.config .opening hline
  · rw [Tag.printInline, if_neg hempty, List.flatMap_singleton, List.append_assoc,
      Text.rows_gap_append hindent]
    exact Tag.rows_inline hclean .opening hline

end Lines

end Context

namespace Tag

section Spelling

theorem inlineText_eq (ending : TagEnd) :
    ∃ g, Text.IsGap g ∧ ending.inlineText = g ++ ending.stackedText := by
  cases ending with
  | opening => exact ⟨[], Text.isGap_nil, rfl⟩
  | selfClosing => exact ⟨[' '], Text.isGap_spaces 1, rfl⟩

theorem spells_inline (tag : Tag) (ending : TagEnd) : tag.Spells ending (tag.inline ending) := by
  obtain ⟨gap, hgap, hinline⟩ := inlineText_eq ending
  rw [inline_eq_stem, hinline, ← List.append_assoc]
  exact spells_stem tag ending hgap

/-- Attributes on rows of their own, from a gap in front of them. -/
theorem exists_attributes {attributes : List Attribute} {g t last : Text} {more : List Text}
    (hg : Text.IsGap g) (hne : g ≠ []) (ht : Text.IsTight t)
    (h : Text.rows t = attributes.map Attribute.render ++ last :: more) :
    ∃ inner gap behind rest, g ++ t = inner ++ gap ++ last ++ behind ++ rest ∧
      SpellsAttributes attributes inner ∧ Text.IsGap gap ∧ Text.IsGap behind ∧
      Text.IsTight rest ∧ Text.rows rest = more := by
  induction attributes generalizing g t with
  | nil =>
      obtain ⟨behind, rest, rfl, hbehind, hrest, hmore, -⟩ := Text.exists_row ht h
      exact ⟨[], g, behind, rest, by simp, rfl, hg, hbehind, hrest, hmore⟩
  | cons a attributes ih =>
      obtain ⟨behind, rest, rfl, hbehind, hrest, hmore, -, hcase⟩ := Text.exists_row ht h
      have hbehindNe : behind ≠ [] := by
        rcases hcase with ⟨-, rfl⟩ | ⟨tail, rfl⟩
        · simp at hmore
        · simp
      obtain ⟨inner, gap, behind', rest', heq, hinner, hgap, hbehind', hrest', hmore'⟩ :=
        ih hbehind hbehindNe hrest hmore
      refine ⟨g ++ a.render ++ inner, gap, behind', rest', ?_, ⟨g, inner, rfl, hg, hne, hinner⟩,
        hgap, hbehind', hrest', hmore'⟩
      rw [List.append_assoc, heq]
      simp

/-- A text with the rows of a tag starts with a spelling of the tag. -/
theorem exists_spelling {config : Config} {width : Nat} {tag : Tag} {ending : TagEnd}
    {behind t : Text} {more : List Text} (ht : Text.IsTight t)
    (h : Text.rows t = tag.rows config width ending behind ++ more) :
    ∃ x g rest, t = x ++ (behind ++ (g ++ rest)) ∧ tag.Spells ending x ∧ Text.IsGap g ∧
      Text.IsTight rest ∧ Text.rows rest = more := by
  unfold rows at h
  split at h
  · rw [List.cons_append, List.append_assoc] at h
    obtain ⟨gap, tail, rfl, hgap, htail, hmore, -, hcase⟩ := Text.exists_row ht h
    have hgapNe : gap ≠ [] := by
      rcases hcase with ⟨-, rfl⟩ | ⟨rest, rfl⟩
      · simp at hmore
      · simp
    obtain ⟨inner, lead, g, rest, heq, hinner, hlead, hg, hrest, hrows⟩ :=
      exists_attributes hgap hgapNe htail hmore
    refine ⟨'<' :: tag.name ++ inner ++ lead ++ ending.stackedText, g, rest, ?_,
      ⟨inner, lead, rfl, hinner, hlead⟩, hg, hrest, hrows⟩
    rw [List.append_assoc, heq]
    simp
  · obtain ⟨g, rest, rfl, hg, hrest, hmore, -⟩ := Text.exists_row ht h
    exact ⟨tag.inline ending, g, rest, by simp, spells_inline tag ending, hg, hrest, hmore⟩

end Spelling

section Solid

variable {config : Config} {width : Nat} {tag : Tag} {ending : TagEnd} {behind : Text}

theorem isBlankText_cons {c : Char} (h : isBlank c = false) (t : Text) :
    Text.isBlankText (c :: t) = false := by
  simp [Text.isBlankText, h]

/-- No row of a clean tag is blank. -/
theorem solid_rows (hclean : tag.isClean = true) :
    ∀ row ∈ tag.rows config width ending behind, Text.isBlankText row = false := by
  intro row hrow
  unfold rows at hrow
  split at hrow
  · rcases List.mem_cons.1 hrow with rfl | hrow
    · exact isBlankText_cons (by decide) _
    · rcases List.mem_append.1 hrow with hrow | hrow
      · obtain ⟨a, ha, rfl⟩ := List.mem_map.1 hrow
        have hreadable := (isReadable_cases (isReadable_of_isClean hclean)).2 a ha
        obtain ⟨c, cs, hrender, hc, -⟩ :=
          Attribute.head?_render (Attribute.isPrintable_of_isReadable hreadable)
        rw [hrender]
        exact isBlankText_cons hc cs
      · rw [List.mem_singleton.1 hrow]
        cases ending with
        | opening => exact isBlankText_cons (c := '>') (by decide) _
        | selfClosing => exact isBlankText_cons (c := '/') (by decide) _
  · rw [List.mem_singleton.1 hrow]
    exact isBlankText_cons (c := '<') (by decide) _

end Solid

end Tag

end RazorLayout
