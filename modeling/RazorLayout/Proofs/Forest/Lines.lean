import RazorLayout.Proofs.Forest.Rows

/-!
# The lines of a forest's layout

A text is finished when each of its lines ends in a character, and that is no carriage return.  The
layout of a regular forest consists of finished lines with single empty lines between them, and it
does not depend on what the journal holds: no collaborator is asked.

* `Yields` says that a computation gives the same value with every journal;
* `Context.Settles` says of an item that it brings finished lines, the same with every journal.

Results.  `Context.placeAll_of_settles`: items that settle make a page of finished lines.
`Forest.settles_items`: the items of a regular forest settle.
-/

namespace RazorLayout

section Yielding

variable {α β : Type}

/-- The computation gives this value with every journal. -/
def Yields (m : Journaled α) (a : α) : Prop :=
  ∀ j, (m.run j).1 = a

theorem yields_pure (a : α) : Yields (pure a) a :=
  fun _ => rfl

theorem Yields.bind {m : Journaled α} {f : α → Journaled β} {a : α} {b : β} (hm : Yields m a)
    (hf : Yields (f a) b) : Yields (m >>= f) b := by
  intro j
  have hrun : ((m >>= f).run j).1 = ((f (m.run j).1).run (m.run j).2).1 := rfl
  rw [hrun, hm j]
  exact hf _

end Yielding

section Finished

namespace Text

/-- A text each line of which ends in a character, and that is no carriage return. -/
def IsFinished (t : Text) : Prop :=
  ∀ line ∈ lines t, ∃ c, line.getLast? = some c ∧ c ≠ '\r'

variable {s t : Text}

theorem isFinished_of_isLine {c : Char} (ht : IsLine t) (hlast : t.getLast? = some c)
    (hc : isBlank c = false) : IsFinished t := by
  rw [IsFinished, lines_of_isLine ht]
  refine List.forall_mem_singleton.2 ⟨c, hlast, ?_⟩
  rintro rfl
  cases hc

theorem isFinished_concat {c : Char} (ht : IsLine t) (hline : c ≠ '\n') (hc : isBlank c = false) :
    IsFinished (t ++ [c]) :=
  isFinished_of_isLine (isLine_append.2 ⟨ht, isLine_cons.2 ⟨hline, isLine_nil⟩⟩)
    List.getLast?_concat hc

/-- The last line of the first text goes on, so its own end does not matter. -/
theorem IsFinished.append_dropLast (ht : IsFinished t)
    (hs : ∀ line ∈ (lines s).dropLast, ∃ c, line.getLast? = some c ∧ c ≠ '\r') :
    IsFinished (s ++ t) := by
  obtain ⟨front, last, first, rest, hlines, hnext, happend⟩ := exists_lines_append s t
  rw [hlines, List.dropLast_concat] at hs
  rw [IsFinished, hnext] at ht
  obtain ⟨⟨c, hlast, hc⟩, hrest⟩ := List.forall_mem_cons.1 ht
  rw [IsFinished, happend]
  refine List.forall_mem_append.2 ⟨hs, List.forall_mem_cons.2 ⟨⟨c, ?_, hc⟩, hrest⟩⟩
  rw [List.getLast?_append, hlast]
  rfl

theorem IsFinished.append (hs : IsFinished s) (ht : IsFinished t) : IsFinished (s ++ t) :=
  ht.append_dropLast fun line hline => hs line (List.dropLast_subset _ hline)

theorem IsFinished.append_left (ht : IsFinished t) (hs : IsLine s) : IsFinished (s ++ t) :=
  ht.append_dropLast (by simp [lines_of_isLine hs])

theorem isFinished_unlines {ls : List Text} (hne : ls ≠ []) (h : ∀ line ∈ ls, IsFinished line) :
    IsFinished (unlines ls) := by
  rw [IsFinished, lines_unlines_eq_flatMap hne]
  intro line hline
  obtain ⟨source, hsource, hline⟩ := List.mem_flatMap.1 hline
  exact h source hsource line hline

theorem IsFinished.of_mem_lines {line : Text} (ht : IsFinished t) (hline : line ∈ lines t) :
    IsFinished line := by
  rw [IsFinished, lines_of_isLine (isLine_of_mem_lines hline)]
  exact List.forall_mem_singleton.2 (ht line hline)

theorem IsFinished.getLast?_ne (ht : IsFinished t) : t.getLast? ≠ some '\n' := by
  intro hlast
  obtain ⟨front, rfl⟩ := List.getLast?_eq_some_iff.1 hlast
  -- Behind the line feed there is one more line, and it is empty.
  obtain ⟨c, hnone, -⟩ := ht [] (by simp [lines_append_newline, lines])
  cases hnone

theorem IsFinished.ne_nil (ht : IsFinished t) : t ≠ [] := by
  rintro rfl
  obtain ⟨c, hnone, -⟩ := ht [] List.mem_cons_self
  cases hnone

end Text

/-- Entries that are empty or finished. -/
def AreTidy (ls : List Text) : Prop :=
  ∀ line ∈ ls, line = [] ∨ Text.IsFinished line

/-- Tidy entries of which the last one is finished. -/
def AreFinished (ls : List Text) : Prop :=
  AreTidy ls ∧ ∃ front line, ls = front ++ [line] ∧ Text.IsFinished line

variable {ls ms : List Text}

theorem areTidy_nil : AreTidy [] := by
  simp [AreTidy]

theorem AreTidy.append (hls : AreTidy ls) (hms : AreTidy ms) : AreTidy (ls ++ ms) :=
  List.forall_mem_append.2 ⟨hls, hms⟩

theorem AreTidy.append_finished (hls : AreTidy ls) (hms : AreFinished ms) :
    AreFinished (ls ++ ms) := by
  obtain ⟨htidy, front, line, rfl, hline⟩ := hms
  exact ⟨hls.append htidy, ls ++ front, line, (List.append_assoc _ _ _).symm, hline⟩

theorem areFinished_of_forall (hne : ls ≠ []) (h : ∀ line ∈ ls, Text.IsFinished line) :
    AreFinished ls := by
  refine ⟨fun line hline => Or.inr (h line hline), ls.dropLast, ls.getLast hne, ?_, ?_⟩
  · exact (List.dropLast_concat_getLast hne).symm
  · exact h _ (List.getLast_mem hne)

theorem AreFinished.ne_nil (h : AreFinished ls) : ls ≠ [] := by
  obtain ⟨-, front, line, rfl, -⟩ := h
  simp

theorem AreTidy.mem_lines (h : AreTidy ls) (hne : ls ≠ []) {line : Text}
    (hline : line ∈ Text.lines (Text.unlines ls)) : line = [] ∨ Text.IsFinished line := by
  rw [Text.lines_unlines_eq_flatMap hne] at hline
  obtain ⟨source, hsource, hline⟩ := List.mem_flatMap.1 hline
  rcases h source hsource with rfl | hfinished
  · exact Or.inl (List.mem_singleton.1 hline)
  · exact Or.inr (hfinished.of_mem_lines hline)

/-- Finished entries stay tidy behind a lead. -/
theorem AreFinished.indent (h : AreFinished ls) {lead : Text} (hlead : Text.IsLine lead) :
    AreTidy (Text.indent lead (Text.unlines ls)) := by
  intro line hline
  obtain ⟨source, hsource, rfl⟩ := List.mem_map.1 hline
  have hmem : source ∈ Text.lines (Text.unlines ls) := (List.dropWhile_suffix _).subset hsource
  split
  · exact Or.inl rfl
  · rename_i hblank
    rcases h.1.mem_lines h.ne_nil hmem with rfl | hfinished
    · exact absurd rfl hblank
    · exact Or.inr (hfinished.append_left hlead)

end Finished

namespace Sheet

variable (s : Sheet)

/-- A gap is nothing, or an empty line. -/
theorem exists_gap : ∃ blanks : List Text, (∀ line ∈ blanks, line = []) ∧
    s.gap.toLines = s.toLines ++ blanks := by
  unfold gap
  split
  · exact ⟨[], by simp, by simp⟩
  · exact ⟨[], by simp, by simp⟩
  · rename_i line rest _ hlatest
    exact ⟨[[]], by simp, by simp [toLines, hlatest]⟩

/-- What is written comes behind what stands there.  Empty lines may be left out. -/
theorem exists_writeAll (ls : List Text) : ∃ added, (s.writeAll ls).toLines = s.toLines ++ added ∧
    solid added = solid ls ∧ ∀ line ∈ added, line ∈ ls := by
  induction ls generalizing s with
  | nil => exact ⟨[], by simp [writeAll], rfl, by simp⟩
  | cons line ls ih =>
      obtain ⟨added, hadded, hsolid, hmem⟩ := ih (s.write line)
      have hstep : s.writeAll (line :: ls) = (s.write line).writeAll ls := rfl
      cases line with
      | nil =>
          obtain ⟨blanks, hblanks, hgap⟩ := s.exists_gap
          have hnone : solid blanks = [] := List.filter_eq_nil_iff.2 (by simpa using hblanks)
          refine ⟨blanks ++ added, ?_, ?_, ?_⟩
          · rw [hstep, hadded, show s.write [] = s.gap from rfl, hgap, List.append_assoc]
          · rw [solid_append, hnone, hsolid, solid_cons_nil, List.nil_append]
          · refine List.forall_mem_append.2 ⟨?_, fun other hother => List.mem_cons_of_mem _
              (hmem other hother)⟩
            intro other hother
            rw [hblanks other hother]
            exact List.mem_cons_self
      | cons c cs =>
          refine ⟨(c :: cs) :: added, ?_, ?_, ?_⟩
          · rw [hstep, hadded]
            simp [write, toLines]
          · rw [solid_cons_of_ne_nil (by simp), hsolid, solid_cons_of_ne_nil (by simp)]
          · exact List.forall_mem_cons.2 ⟨List.mem_cons_self,
              fun other hother => List.mem_cons_of_mem _ (hmem other hother)⟩

/-- Finished entries at the end of a sheet. -/
theorem areFinished_writeAll {ls : List Text} (hls : AreFinished ls) (h : AreTidy s.toLines) :
    AreFinished (s.writeAll ls).toLines := by
  obtain ⟨htidy, front, line, rfl, hline⟩ := hls
  obtain ⟨added, hadded, -, hmem⟩ := s.exists_writeAll front
  have hwrite : (s.writeAll (front ++ [line])).toLines = (s.writeAll front).toLines ++ [line] := by
    have hsolid : line.isEmpty = false := by
      simpa using hline.ne_nil
    simp [writeAll, List.foldl_append, write, hsolid, toLines]
  rw [hwrite, hadded]
  refine AreTidy.append_finished (h.append ?_)
    (areFinished_of_forall (by simp) (by simpa using hline))
  intro other hother
  exact htidy other (List.mem_append_left _ (hmem other hother))

end Sheet

namespace Page

/-- The page has the lines of another one, with empty lines behind them. -/
def Extends (p q : Page) : Prop :=
  ∃ blanks : List Text, (∀ line ∈ blanks, line = []) ∧
    p.sheet.toLines = q.sheet.toLines ++ blanks

theorem Extends.refl (p : Page) : p.Extends p :=
  ⟨[], by simp, by simp⟩

theorem Extends.trans {p q r : Page} (h : p.Extends q) (h' : q.Extends r) : p.Extends r := by
  obtain ⟨blanks, hblanks, hp⟩ := h
  obtain ⟨more, hmore, hq⟩ := h'
  refine ⟨more ++ blanks, List.forall_mem_append.2 ⟨hmore, hblanks⟩, ?_⟩
  rw [hp, hq, List.append_assoc]

theorem extends_gapIf (wanted : Bool) (p : Page) : (p.gapIf wanted).Extends p := by
  cases wanted with
  | false => exact Extends.refl p
  | true => exact p.sheet.exists_gap

theorem extends_beforeContent (p : Page) : p.beforeContent.Extends p :=
  extends_gapIf p.afterBlock p

theorem extends_beforeTag (p : Page) : p.beforeTag.Extends p := by
  simp only [beforeTag]
  split
  · exact (extends_gapIf p.beforeContent.seenRootDirective p.beforeContent).trans
      (extends_beforeContent p)
  · exact extends_beforeContent p

theorem extends_ready (p : Page) (item : Item) : (p.ready item).Extends p := by
  cases item with
  | closeTag name => exact Extends.refl p
  | doctype raw => exact Extends.refl p
  | block raw => exact extends_gapIf _ p
  | text raw => exact extends_beforeContent p
  | comment raw => exact extends_beforeContent p
  | directive raw => exact extends_beforeContent p
  | _ => exact extends_beforeTag p

end Page

namespace Context

section Settling

/-- The item brings finished lines, the same with every journal. -/
def Settles (ctx : Context) (item : Item) : Prop :=
  ∀ level, ∃ ls, AreFinished ls ∧ Yields (ctx.itemLines (ctx.config.indentation level) item) ls

variable {ctx : Context}

theorem Settles.solid_text {raw : Text} (h : ctx.Settles (.text raw)) :
    Text.isBlankText raw = false := by
  by_contra hblank
  obtain ⟨ls, hls, hyields⟩ := h 0
  have hnil : ls = [] := by
    rw [← hyields {}, itemLines, if_pos (by simpa using hblank)]
    rfl
  exact hls.ne_nil hnil

/-- An item that settles leaves a page of finished lines. -/
theorem Settles.place {item : Item} (h : ctx.Settles item) {page : Page}
    (hpage : AreTidy page.sheet.toLines) :
    ∃ placed : Page, AreFinished placed.sheet.toLines ∧ Yields (ctx.place page item) placed := by
  have hunit : item.isUnit = true := by
    cases item with
    | text raw => simp [Item.isUnit, h.solid_text]
    | _ => rfl
  obtain ⟨blanks, hblanks, hready⟩ := page.extends_ready item
  obtain ⟨ls, hls, hyields⟩ := h (item.levelAt page.level)
  refine ⟨((page.ready item).write ls).behind item, ?_, ?_⟩
  · have htidy : AreTidy (page.ready item).sheet.toLines := by
      rw [hready]
      exact hpage.append fun line hline => Or.inl (hblanks line hline)
    rw [Page.sheet_behind]
    exact (page.ready item).sheet.areFinished_writeAll hls htidy
  · rw [place_eq ctx page hunit]
    exact hyields.bind (yields_pure _)

/-- Items that settle leave a page of finished lines, the same with every journal. -/
theorem placeAll_of_settles {items : List Item} (h : ∀ item ∈ items, ctx.Settles item)
    (page : Page) (hpage : AreTidy page.sheet.toLines) :
    ∃ placed : Page, (items ≠ [] → AreFinished placed.sheet.toLines) ∧
      Yields (ctx.placeAll page items) placed := by
  induction items generalizing page with
  | nil => exact ⟨page, fun hne => absurd rfl hne, fun _ => rfl⟩
  | cons item items ih =>
      obtain ⟨hitem, hitems⟩ := List.forall_mem_cons.1 h
      obtain ⟨next, hnext, hyields⟩ := hitem.place hpage
      obtain ⟨placed, hplaced, hrest⟩ := ih hitems next hnext.1
      refine ⟨placed, ?_, hyields.bind hrest⟩
      intro _
      cases items with
      | nil =>
          have hsame : next = placed := hrest {}
          exact hsame ▸ hnext
      | cons other items => exact hplaced (by simp)

end Settling

end Context

section Pieces

theorem isFinished_name {name : Text} (hne : name ≠ []) (h : ∀ c ∈ name, isNameChar c = true) :
    Text.IsFinished name :=
  Text.isFinished_of_isLine (isLine_name h) (List.getLast?_eq_some_getLast hne)
    (isBlank_eq_false_of_isNameChar (h _ (List.getLast_mem hne)))

theorem isFinished_closingTag {name : Text} (h : isTagName name = true) :
    Text.IsFinished (Context.closingTag name) := by
  obtain ⟨-, -, -, -, hchars⟩ := isTagName_cases h
  exact Text.isFinished_concat (isLine_append.2 ⟨by decide, isLine_name hchars⟩) (by decide)
    (by decide)

theorem TagEnd.isFinished (ending : TagEnd) :
    Text.IsFinished ending.inlineText ∧ Text.IsFinished ending.stackedText := by
  cases ending with
  | opening =>
      exact ⟨Text.isFinished_of_isLine (by decide) rfl rfl,
        Text.isFinished_of_isLine (by decide) rfl rfl⟩
  | selfClosing =>
      exact ⟨Text.isFinished_of_isLine (by decide) rfl rfl,
        Text.isFinished_of_isLine (by decide) rfl rfl⟩

theorem Attribute.isRegular_iff {a : Attribute} :
    a.isRegular = true ↔ a.isReadable = true ∧ Text.IsFinished a.render := by
  simp only [isRegular, Bool.and_eq_true, List.all_eq_true, Text.IsFinished, Option.any_eq_true,
    bne_iff_ne]

theorem Attribute.isFinished_render {a : Attribute} (h : a.isRegular = true) :
    Text.IsFinished a.render :=
  (isRegular_iff.1 h).2

namespace Tag

variable {tag : Tag} (hregular : tag.isRegular = true)
include hregular

theorem isFinished_opening : Text.IsFinished ('<' :: tag.name) := by
  obtain ⟨c, cs, hcons, -, hchars⟩ := isTagName_cases (isRegular_cases hregular).1
  have hne : tag.name ≠ [] := by
    simp [hcons]
  have hbracket : Text.IsLine ['<'] := by
    decide
  exact (isFinished_name hne hchars).append_left hbracket

theorem isFinished_inline (ending : TagEnd) : Text.IsFinished (tag.inline ending) := by
  have hattributes : ∀ attributes : List Attribute, (∀ a ∈ attributes, a.isRegular = true) →
      ∀ {t : Text}, Text.IsFinished t →
        Text.IsFinished (t ++ attributes.flatMap fun a => ' ' :: a.render) := by
    intro attributes hall t ht
    induction attributes generalizing t with
    | nil => rwa [List.flatMap_nil, List.append_nil]
    | cons a attributes ih =>
        obtain ⟨ha, hrest⟩ := List.forall_mem_cons.1 hall
        have hspace : Text.IsFinished (' ' :: a.render) :=
          (Attribute.isFinished_render ha).append_left (isLine_spaces 1)
        rw [List.flatMap_cons, ← List.append_assoc]
        exact ih hrest (ht.append hspace)
  exact (hattributes _ (isRegular_cases hregular).2 (isFinished_opening hregular)).append
    ending.isFinished.1

theorem isFinished_print (config : Config) (width : Nat) (ending : TagEnd) :
    Text.IsFinished (tag.print config width ending) := by
  rw [print, if_neg (by simp [name_isEmpty (isReadable_of_isRegular hregular)])]
  split
  · refine Text.isFinished_unlines (by simp) ?_
    refine List.forall_mem_append.2 ⟨List.forall_mem_cons.2 ⟨isFinished_opening hregular, ?_⟩,
      List.forall_mem_singleton.2 ending.isFinished.2⟩
    intro line hline
    obtain ⟨a, ha, rfl⟩ := List.mem_map.1 hline
    exact (Attribute.isFinished_render ((isRegular_cases hregular).2 a ha)).append_left
      (isLine_spaces _)
  · exact isFinished_inline hregular ending

end Tag

namespace Context

variable (ctx : Context) {tag : Tag} (hregular : tag.isRegular = true) (level : Nat)

theorem ne_nil_of_mem_map {t indent : Text} (h : Text.IsFinished t) :
    ∀ line ∈ (Text.lines t).map (indent ++ ·), line ≠ [] := by
  intro line hline
  obtain ⟨source, hsource, rfl⟩ := List.mem_map.1 hline
  simp [(h.of_mem_lines hsource).ne_nil]

theorem solid_map_of_isFinished {t indent : Text} (h : Text.IsFinished t) :
    solid ((Text.lines t).map (indent ++ ·)) = (Text.lines t).map (indent ++ ·) :=
  solid_of_forall_ne_nil (ne_nil_of_mem_map h)

theorem areFinished_map_indent {t : Text} (h : Text.IsFinished t) (config : Config) (level : Nat) :
    AreFinished ((Text.lines t).map (config.indentation level ++ ·)) := by
  refine areFinished_of_forall (by simpa using Text.lines_ne_nil t) ?_
  intro line hline
  obtain ⟨source, hsource, rfl⟩ := List.mem_map.1 hline
  exact (h.of_mem_lines hsource).append_left (isLine_indentation config level)

theorem appendLast_lines (t : Text) {tail : Text} (h : Text.IsLine tail) :
    appendLast tail (Text.lines t) = Text.lines (t ++ tail) := by
  obtain ⟨front, last, first, rest, hlines, htail, happend⟩ := Text.exists_lines_append t tail
  rw [Text.lines_of_isLine h] at htail
  obtain ⟨rfl, rfl⟩ := List.cons.inj htail
  rw [happend, hlines, appendLast_concat]

include hregular

/-- The lines of a tag are those of the printed tag, each behind the indentation. -/
theorem tagLines_eq (indent : Text) (ending : TagEnd) :
    ctx.tagLines indent tag ending =
      (Text.lines (tag.print ctx.config indent.length ending)).map (indent ++ ·) :=
  solid_map_of_isFinished (Tag.isFinished_print hregular _ _ ending)

/-- A stacked inline element is the printed tag with more behind it. -/
theorem inlineLines_of_isStacked {indent content : Text} (hcontent : Text.IsLine content)
    (hstacked : tag.isStacked ctx.config indent.length .opening = true) :
    ctx.inlineLines indent tag content =
      (Text.lines (tag.print ctx.config indent.length .opening ++
        (content ++ closingTag tag.name))).map (indent ++ ·) := by
  have hname : isTagName tag.name = true := (Tag.isRegular_cases hregular).1
  have hline : Text.IsLine (content ++ closingTag tag.name) :=
    isLine_append.2 ⟨hcontent, isLine_closingTag hname⟩
  have hfinished := (Tag.isFinished_print hregular ctx.config indent.length .opening).append
    ((isFinished_closingTag hname).append_left hcontent)
  simp only [inlineLines, if_pos hstacked, appendLast_lines _ hline]
  exact solid_map_of_isFinished hfinished

theorem inlineLines_of_not_isStacked {indent : Text} (content : Text)
    (hstacked : tag.isStacked ctx.config indent.length .opening = false) :
    ctx.inlineLines indent tag content =
      [indent ++ tag.inline .opening ++ (content ++ closingTag tag.name)] := by
  have hempty := Tag.name_isEmpty (Tag.isReadable_of_isRegular hregular)
  simp [inlineLines, hstacked, Tag.printInline, hempty]

theorem areFinished_tagLines (ending : TagEnd) :
    AreFinished (ctx.tagLines (ctx.config.indentation level) tag ending) := by
  rw [tagLines_eq ctx hregular]
  exact areFinished_map_indent (Tag.isFinished_print hregular _ _ ending) _ _

theorem areFinished_inlineLines {content : Text} (hcontent : Text.IsLine content) :
    AreFinished (ctx.inlineLines (ctx.config.indentation level) tag content) := by
  have hname : isTagName tag.name = true := (Tag.isRegular_cases hregular).1
  have hbehind : Text.IsFinished (content ++ closingTag tag.name) :=
    (isFinished_closingTag hname).append_left hcontent
  cases hstacked : tag.isStacked ctx.config (ctx.config.indentation level).length .opening with
  | true =>
      rw [inlineLines_of_isStacked ctx hregular hcontent hstacked]
      exact areFinished_map_indent ((Tag.isFinished_print hregular _ _ .opening).append hbehind) _ _
  | false =>
      rw [inlineLines_of_not_isStacked ctx hregular content hstacked, List.append_assoc]
      refine areFinished_of_forall (by simp) (List.forall_mem_singleton.2 ?_)
      exact ((Tag.isFinished_inline hregular .opening).append hbehind).append_left
        (isLine_indentation _ _)

end Context

theorem isFinished_strip {content : Text} (h : isLeafText content = true) :
    Text.IsFinished (Text.strip content) := by
  obtain ⟨-, c, hlast, hc⟩ := Text.strip_eq_cons (isLeafText_cases h).1
  exact Text.isFinished_of_isLine (isLine_of_isLeafText h) hlast hc

theorem isFinished_braces : Text.IsFinished ['{'] ∧ Text.IsFinished ['}'] :=
  ⟨Text.isFinished_of_isLine (by decide) rfl rfl, Text.isFinished_of_isLine (by decide) rfl rfl⟩

theorem isFinished_conditionText {words : Text} (hline : Text.IsLine words)
    (hwords : Text.IsFinished words) {condition : Option Text}
    (h : condition.all isCondition = true) :
    Text.IsFinished (words ++ conditionText condition) := by
  cases condition with
  | none =>
      rw [conditionText, List.append_nil]
      exact hwords
  | some condition =>
      have hopening : Text.IsLine (' ' :: '(' :: condition) := by
        refine isLine_cons.2 ⟨by decide, isLine_cons.2 ⟨by decide, ?_⟩⟩
        exact Text.not_mem_of_forall (fun c hc => isConditionChar_of_mem h hc) (by decide)
      have hgroup : Text.IsFinished (' ' :: '(' :: condition ++ [')']) :=
        Text.isFinished_concat hopening (by decide) (by decide)
      exact hgroup.append_left hline

theorem FlowHead.isFinished_words {head : FlowHead} (h : head.isClean = true) :
    Text.IsFinished head.words := by
  have hkeyword : Text.IsFinished (sigil :: head.keyword.text) := by
    cases head.keyword <;> exact Text.isFinished_of_isLine (by decide) rfl rfl
  rcases words_cases h with hwords | ⟨name, hid, hwords⟩
  · rw [hwords]
    exact hkeyword
  · have hne : name ≠ [] := by
      rintro rfl
      cases hid
    have hname : Text.IsFinished (' ' :: name) :=
      (isFinished_name hne (isNameChar_of_isIdentifier hid)).append_left (isLine_spaces 1)
    rw [hwords]
    exact hkeyword.append hname

theorem ClauseHead.isFinished_text {head : ClauseHead} (h : head.isClean = true) :
    Text.IsFinished head.text := by
  rw [text_eq]
  refine isFinished_conditionText (isLine_words head) ?_ h
  cases head <;> exact Text.isFinished_of_isLine (isLine_words _) rfl rfl

/-- A head, a tidy body between braces, and what follows. -/
theorem areFinished_braced {indent header : Text} {body others : List Text}
    (hindent : Text.IsLine indent) (hheader : Text.IsFinished header) (hbody : AreTidy body)
    (hothers : others = [] ∨ AreFinished others) :
    AreFinished
      ((indent ++ header) :: (indent ++ ['{']) :: body ++ [indent ++ ['}']] ++ others) := by
  have hopening : AreTidy ((indent ++ header) :: (indent ++ ['{']) :: body) :=
    List.forall_mem_cons.2 ⟨Or.inr (hheader.append_left hindent), List.forall_mem_cons.2
      ⟨Or.inr (isFinished_braces.1.append_left hindent), hbody⟩⟩
  have hclosing : AreFinished [indent ++ ['}']] :=
    areFinished_of_forall (by simp)
      (List.forall_mem_singleton.2 (isFinished_braces.2.append_left hindent))
  have hblock := hopening.append_finished hclosing
  rcases hothers with rfl | hothers
  · rw [List.append_nil]
    exact hblock
  · exact hblock.1.append_finished hothers

end Pieces

section Forests

variable {spacing : Spacing} {config : Config} {collaborators : Collaborators}

theorem Forest.items_ne_nil {F : Forest} (h : F.isNil = false) : F.items spacing ≠ [] := by
  cases F with
  | nil => cases h
  | text content rest => simp [Forest.items]
  | element tag children rest =>
      rw [Forest.items]
      split <;> simp
  | selfClosing tag rest => simp [Forest.items]
  | flow head body chain rest => simp [Forest.items]

/-- The page of a forest whose items settle. -/
theorem Forest.exists_page {F : Forest} {ctx : Context}
    (hitems : ∀ item ∈ F.items spacing, ctx.Settles item) (hnil : F.isNil = false) :
    ∃ placed : Page, AreFinished placed.sheet.toLines ∧
      Yields (ctx.placeAll {} (F.items spacing)) placed := by
  obtain ⟨placed, hfinished, hyields⟩ := Context.placeAll_of_settles hitems {} areTidy_nil
  exact ⟨placed, hfinished (Forest.items_ne_nil hnil), hyields⟩

theorem Forest.yields_bodyLines {body : Forest} {n : Nat} {lead : Text}
    (hlead : Text.IsLine lead)
    (hitems : ∀ item ∈ body.items spacing, Context.Settles
      ⟨config, collaborators, formatWithin config collaborators n⟩ item) :
    ∃ ls, AreTidy ls ∧ Yields (body.bodyLines spacing config collaborators n lead) ls := by
  cases hnil : body.isNil with
  | true =>
      refine ⟨[], areTidy_nil, ?_⟩
      rw [Forest.bodyLines, if_pos hnil]
      exact yields_pure []
  | false =>
      obtain ⟨placed, hfinished, hyields⟩ := Forest.exists_page hitems hnil
      refine ⟨Text.indent lead placed.sheet.text, hfinished.indent hlead, ?_⟩
      rw [Forest.bodyLines, if_neg (by simp [hnil])]
      exact hyields.bind (yields_pure _)

theorem Context.settles_text {ctx : Context} {content : Text} (h : isLeafText content = true) :
    ctx.Settles (.text content) := by
  intro level
  have hfinished : Text.IsFinished (ctx.config.indentation level ++ Text.strip content) :=
    (isFinished_strip h).append_left (isLine_indentation _ _)
  refine ⟨[ctx.config.indentation level ++ Text.strip content],
    areFinished_of_forall (by simp) (List.forall_mem_singleton.2 hfinished), ?_⟩
  rw [itemLines, if_neg (by simp [(isLeafText_cases h).1]), textLines_of_isLeafText h]
  exact yields_pure _

/-- A block that is nested too deep settles on its single line. -/
theorem Forest.settles_flowSource_zero {head : FlowHead} {body : Forest} {chain : Chain}
    (hhead : head.isClean = true) (hbody : body.isClean = true) (hchain : chain.isClean = true) :
    Context.Settles ⟨config, collaborators, formatWithin config collaborators 0⟩
      (.block (Forest.flowSource spacing head body chain)) := by
  intro level
  have hfinished : Text.IsFinished (Forest.flowSource spacing head body chain) :=
    Text.isFinished_of_isLine (Forest.isLine_flowSource hhead hbody hchain)
      (Forest.getLast?_flowSource head body chain) (by decide)
  have hyields : Yields (Context.itemLines
      ⟨config, collaborators, formatWithin config collaborators 0⟩
      (config.indentation level) (.block (Forest.flowSource spacing head body chain)))
      [config.indentation level ++ Text.strip (Forest.flowSource spacing head body chain)] :=
    fun _ => rfl
  rw [Forest.strip_flowSource] at hyields
  exact ⟨_, areFinished_of_forall (by simp) (List.forall_mem_singleton.2
    (hfinished.append_left (isLine_indentation config level))), hyields⟩

/-- A block that may be nested settles if what is inside it does. -/
theorem Forest.settles_flowSource_succ {head : FlowHead} {body : Forest} {chain : Chain} {n : Nat}
    (hclean : head.isClean = true ∧ body.isClean = true ∧ chain.isClean = true)
    (hitems : ∀ item ∈ body.items spacing, Context.Settles
      ⟨config, collaborators, formatWithin config collaborators n⟩ item)
    (hlines : ∀ indent, Text.IsLine indent → ∃ ls, (ls = [] ∨ AreFinished ls) ∧
      Yields (chain.lines spacing config collaborators n indent) ls) :
    Context.Settles ⟨config, collaborators, formatWithin config collaborators (n + 1)⟩
      (.block (Forest.flowSource spacing head body chain)) := by
  intro level
  have hindent := isLine_indentation config level
  obtain ⟨lines, htidy, hbodyLines⟩ := Forest.yields_bodyLines
    (isLine_append.2 ⟨hindent, isLine_spaces config.indentSize⟩) hitems
  obtain ⟨others, hothers, hchainLines⟩ := hlines _ hindent
  obtain ⟨-, hcondition, -⟩ := FlowHead.isClean_cases hclean.1
  have hheader : Text.IsFinished (head.words ++ conditionText head.condition) :=
    isFinished_conditionText (FlowHead.isLine_words hclean.1)
      (FlowHead.isFinished_words hclean.1) hcondition
  refine ⟨_, areFinished_braced hindent hheader htidy hothers, ?_⟩
  rw [Context.itemLines, Forest.blockLines_flowSource hclean]
  exact hbodyLines.bind (hchainLines.bind (yields_pure _))

mutual

/-- The items of a regular forest settle. -/
theorem Forest.settles_items {F : Forest} (hregular : F.isRegular = true) (n : Nat) :
    ∀ item ∈ F.items spacing, Context.Settles
      ⟨config, collaborators, formatWithin config collaborators n⟩ item := by
  match F with
  | .nil => simp [Forest.items]
  | .text content rest =>
      obtain ⟨hleaf, -, hrest⟩ := Forest.isRegular_text.1 hregular
      exact List.forall_mem_cons.2 ⟨Context.settles_text hleaf, Forest.settles_items hrest n⟩
  | .element tag children rest =>
      obtain ⟨htag, -, -, hchildren, hrest⟩ := Forest.isRegular_element.1 hregular
      have hothers := Forest.settles_items hrest n
      rw [Forest.items]
      split
      · refine List.forall_mem_cons.2 ⟨?_, hothers⟩
        intro level
        exact ⟨_, Context.areFinished_inlineLines _ htag level (Forest.isLine_inlineText hchildren),
          yields_pure _⟩
      · refine List.forall_mem_cons.2 ⟨?_, List.forall_mem_append.2
          ⟨Forest.settles_items hchildren n, List.forall_mem_cons.2 ⟨?_, hothers⟩⟩⟩
        · intro level
          exact ⟨_, Context.areFinished_tagLines _ htag level .opening, yields_pure _⟩
        · intro level
          have hclosing := isFinished_closingTag (Tag.isRegular_cases htag).1
          refine ⟨_, areFinished_of_forall (by simp) (List.forall_mem_singleton.2
            (hclosing.append_left (isLine_indentation config level))), yields_pure _⟩
  | .selfClosing tag rest =>
      obtain ⟨htag, hrest⟩ := Forest.isRegular_selfClosing.1 hregular
      refine List.forall_mem_cons.2 ⟨?_, Forest.settles_items hrest n⟩
      intro level
      exact ⟨_, Context.areFinished_tagLines _ htag level .selfClosing, yields_pure _⟩
  | .flow head body chain rest =>
      obtain ⟨hhead, hbody, hchain, hrest⟩ := Forest.isRegular_flow.1 hregular
      refine List.forall_mem_cons.2 ⟨?_, Forest.settles_items hrest n⟩
      cases n with
      | zero => exact Forest.settles_flowSource_zero hhead hbody hchain
      | succ n =>
          exact Forest.settles_flowSource_succ ⟨hhead, hbody, hchain⟩
            (Forest.settles_items (Forest.isRegular_of_isClean hbody) n)
            fun _ hindent => Chain.yields_lines hchain n hindent

theorem Chain.yields_lines {chain : Chain} {indent : Text} (hclean : chain.isClean = true)
    (n : Nat) (hindent : Text.IsLine indent) :
    ∃ ls, (ls = [] ∨ AreFinished ls) ∧
      Yields (chain.lines spacing config collaborators n indent) ls := by
  match chain with
  | .nil => exact ⟨[], Or.inl rfl, yields_pure []⟩
  | .clause head body rest =>
      obtain ⟨hhead, hbody, hrest⟩ := Chain.isClean_clause.1 hclean
      obtain ⟨lines, hlines, hbodyLines⟩ := Forest.yields_bodyLines
        (isLine_append.2 ⟨hindent, isLine_spaces config.indentSize⟩)
        (Forest.settles_items (Forest.isRegular_of_isClean hbody) n)
      obtain ⟨others, hothers, hchainLines⟩ := Chain.yields_lines hrest n hindent
      exact ⟨_, Or.inr (areFinished_braced hindent (ClauseHead.isFinished_text hhead) hlines
        hothers), hbodyLines.bind (hchainLines.bind (yields_pure _))⟩

end

end Forests

end RazorLayout
