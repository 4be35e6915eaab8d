import RazorLayout.Layout.Markup

/-!
# The solid lines of a layout

Blank lines and flags decide how a layout is spaced; its substance is the lines that hold something.
This module says once what placing an item does to them.

* `Context.itemLines` gives the lines that an item brings, as a function of its indentation alone;
* `Context.itemsLines` collects them over a list of items, with the level as the only state.

Results.  `Context.place_eq`: placing an item is making the page ready for it (`Page.ready`),
writing its lines, and going on behind it (`Page.behind`).  `Context.place_run`: so it adds its
lines and nothing else.  `Context.placeAll_run`: hence a layout holds the lines of its items in
order, whatever the spacing.
-/

namespace RazorLayout

section SolidLists

@[simp] theorem solid_nil : solid [] = [] := rfl

@[simp] theorem solid_append (ls ms : List Text) : solid (ls ++ ms) = solid ls ++ solid ms :=
  List.filter_append _ _

@[simp] theorem solid_cons_nil (ls : List Text) : solid ([] :: ls) = solid ls := rfl

theorem solid_cons_of_ne_nil {line : Text} (h : line ≠ []) (ls : List Text) :
    solid (line :: ls) = line :: solid ls := by
  have hline : line.isEmpty = false := by
    simpa using h
  simp [solid, hline]

theorem solid_of_forall_ne_nil {ls : List Text} (h : ∀ line ∈ ls, line ≠ []) : solid ls = ls := by
  refine List.filter_eq_self.2 ?_
  intro line hline
  simpa using h line hline

end SolidLists

namespace Sheet

/-- The lines of a sheet that hold something, from top to bottom. -/
def solidLines (s : Sheet) : List Text :=
  solid s.toLines

@[simp] theorem solidLines_gap (s : Sheet) : s.gap.solidLines = s.solidLines := by
  unfold gap
  split
  · rfl
  · rfl
  · rename_i line rest _ hs
    have hlatest : (⟨[] :: line :: rest⟩ : Sheet).toLines = s.toLines ++ [[]] := by
      simp [toLines, hs]
    rw [solidLines, hlatest, solid_append]
    simp [solidLines]

@[simp] theorem solidLines_write (s : Sheet) (line : Text) :
    (s.write line).solidLines = s.solidLines ++ solid [line] := by
  cases line with
  | nil => simp [write]
  | cons c cs => simp [write, solidLines, toLines]

@[simp] theorem solidLines_writeAll (s : Sheet) (ls : List Text) :
    (s.writeAll ls).solidLines = s.solidLines ++ solid ls := by
  induction ls generalizing s with
  | nil => simp [writeAll]
  | cons line ls ih =>
      have hstep : s.writeAll (line :: ls) = (s.write line).writeAll ls := rfl
      have hcons : solid (line :: ls) = solid [line] ++ solid ls := solid_append [line] ls
      rw [hstep, ih, hcons, solidLines_write, List.append_assoc]

end Sheet

namespace Page

/-- The lines of a page that hold something, from top to bottom. -/
def solidLines (p : Page) : List Text :=
  p.sheet.solidLines

@[simp] theorem solidLines_write (p : Page) (ls : List Text) :
    (p.write ls).solidLines = p.solidLines ++ solid ls := by
  simp [solidLines, write]

@[simp] theorem solidLines_gapIf (wanted : Bool) (p : Page) :
    (p.gapIf wanted).solidLines = p.solidLines := by
  cases wanted <;> simp [gapIf, solidLines]

@[simp] theorem level_gapIf (wanted : Bool) (p : Page) : (p.gapIf wanted).level = p.level := by
  cases wanted <;> rfl

@[simp] theorem solidLines_beforeContent (p : Page) :
    p.beforeContent.solidLines = p.solidLines :=
  solidLines_gapIf p.afterBlock p

@[simp] theorem level_beforeContent (p : Page) : p.beforeContent.level = p.level :=
  level_gapIf p.afterBlock p

@[simp] theorem solidLines_beforeTag (p : Page) : p.beforeTag.solidLines = p.solidLines := by
  simp only [beforeTag]
  split
  · exact (solidLines_gapIf _ _).trans (solidLines_beforeContent p)
  · exact solidLines_beforeContent p

@[simp] theorem level_beforeTag (p : Page) : p.beforeTag.level = p.level := by
  simp only [beforeTag]
  split
  · exact (level_gapIf _ _).trans (level_beforeContent p)
  · exact level_beforeContent p

end Page

namespace Config

variable (config : Config) (level : Nat)

theorem indentation_zero : config.indentation 0 = [] := by
  simp [indentation, Text.spaces]

theorem length_indentation : (config.indentation level).length = level * config.indentSize := by
  simp [indentation, Text.spaces]

theorem indentation_ne_nil {level : Nat} (h : level ≠ 0) : config.indentation level ≠ [] := by
  rw [← List.length_pos_iff, length_indentation]
  exact Nat.mul_pos (Nat.pos_of_ne_zero h) config.indentSize_pos

theorem indentation_append (more : Nat) :
    config.indentation level ++ config.indentation more = config.indentation (level + more) := by
  simp [indentation, Text.spaces, Nat.add_mul]

theorem indentation_append_unit :
    config.indentation level ++ config.unit = config.indentation (level + 1) := by
  simp [indentation, unit, Text.spaces, Nat.add_mul]

end Config

namespace Item

/-- The level that an item is written at, when `level` elements are open. -/
def levelAt (level : Nat) : Item → Nat
  | closeTag _ => level - 1
  | doctype _ => 0
  | _ => level

/-- The level behind an item. -/
def levelAfter (level : Nat) : Item → Nat
  | openTag _ => level + 1
  | closeTag _ => level - 1
  | _ => level

/-- Whether the item is written at all: a blank text is not. -/
def isUnit : Item → Bool
  | text raw => !Text.isBlankText raw
  | _ => true

end Item

namespace Page

section Steps

/-- The page made ready for an item: the element that a closing tag ends is left, and a blank line
is written where the flags ask for one. -/
def ready (p : Page) : Item → Page
  | .preserved _ _ => p.beforeTag
  | .inline _ _ => p.beforeTag
  | .openTag _ => p.beforeTag
  | .selfClosingTag _ => p.beforeTag
  | .closeTag _ => { p with level := p.level - 1, afterBlock := false, justOpened := false }
  | .text _ => p.beforeContent
  | .comment _ => p.beforeContent
  | .doctype _ => p
  | .directive _ => p.beforeContent
  | .block _ => { p.gapIf (!p.justOpened) with justOpened := false }

/-- The page behind an item whose lines have been written. -/
def behind (p : Page) : Item → Page
  | .openTag _ => { p with level := p.level + 1, justOpened := true }
  | .directive _ => { p with seenRootDirective := p.seenRootDirective || p.level == 0 }
  | .block _ => { p with afterBlock := true }
  | _ => p

variable (p : Page) (item : Item)

@[simp] theorem sheet_behind : (p.behind item).sheet = p.sheet := by
  cases item <;> rfl

@[simp] theorem solidLines_ready : (p.ready item).solidLines = p.solidLines := by
  cases item with
  | closeTag name => rfl
  | doctype raw => rfl
  | block raw => exact solidLines_gapIf _ p
  | text raw => exact solidLines_beforeContent p
  | comment raw => exact solidLines_beforeContent p
  | directive raw => exact solidLines_beforeContent p
  | _ => exact solidLines_beforeTag p

theorem level_behind_ready (ls : List Text) :
    (((p.ready item).write ls).behind item).level = item.levelAfter p.level := by
  cases item with
  | closeTag name => rfl
  | doctype raw => rfl
  | block raw => exact level_gapIf _ p
  | text raw => exact level_beforeContent p
  | comment raw => exact level_beforeContent p
  | directive raw => exact level_beforeContent p
  | openTag tag => exact congrArg (· + 1) (level_beforeTag p)
  | _ => exact level_beforeTag p

end Steps

end Page

namespace Context

section Lines

theorem appendLast_concat (tail line : Text) (ls : List Text) :
    appendLast tail (ls ++ [line]) = ls ++ [line ++ tail] := by
  induction ls with
  | nil => rfl
  | cons first ls ih =>
      cases ls with
      | nil => rfl
      | cons next ls =>
          rw [List.cons_append, List.cons_append, appendLast, ← List.cons_append, ih]
          rfl

/-- The lines that an item brings at an indentation. -/
def itemLines (ctx : Context) (indent : Text) : Item → Journaled (List Text)
  | .preserved tag content => ctx.preservedLines indent tag content
  | .inline tag content => pure (ctx.inlineLines indent tag content)
  | .openTag tag => pure (ctx.tagLines indent tag .opening)
  | .selfClosingTag tag => pure (ctx.tagLines indent tag .selfClosing)
  | .closeTag name => pure [indent ++ closingTag name]
  | .text raw => pure (if Text.isBlankText raw then [] else textLines indent raw)
  | .comment raw => pure (trimmedLine indent raw)
  | .doctype raw => pure (trimmedLine indent raw)
  | .directive raw => pure (trimmedLine indent raw)
  | .block raw => ctx.blockLines indent raw

/-- The lines that items bring, from a level on. -/
def itemsLines (ctx : Context) : Nat → List Item → Journaled (List Text)
  | _, [] => pure []
  | level, item :: items => do
      let lines ← ctx.itemLines (ctx.config.indentation (item.levelAt level)) item
      let rest ← ctx.itemsLines (item.levelAfter level) items
      pure (solid lines ++ rest)

end Lines

section Runs

/-- Placing an item is making the page ready, writing the lines of the item and going on behind
it. -/
theorem place_eq (ctx : Context) (page : Page) {item : Item} (hunit : item.isUnit = true) :
    ctx.place page item = (do
      let lines ← ctx.itemLines (ctx.config.indentation (item.levelAt page.level)) item
      pure (((page.ready item).write lines).behind item)) := by
  have htag : page.beforeTag.indent ctx.config = ctx.config.indentation page.level := by
    simp [Page.indent]
  have hcontent : page.beforeContent.indent ctx.config = ctx.config.indentation page.level := by
    simp [Page.indent]
  cases item with
  | closeTag name => rfl
  | text raw =>
      have hsolid : Text.isBlankText raw = false := by
        simpa [Item.isUnit] using hunit
      simp only [place, itemLines, hsolid, hcontent]
      rfl
  | comment raw =>
      simp only [place, itemLines, hcontent]
      rfl
  | doctype raw =>
      have hroot : ctx.config.indentation 0 = [] := by
        simp [Config.indentation, Text.spaces]
      simp only [place, itemLines, Item.levelAt, hroot]
      rfl
  | directive raw =>
      simp only [place, itemLines, hcontent]
      rfl
  | block raw =>
      let spaced : Page := { page.gapIf (!page.justOpened) with justOpened := false }
      have hblock : spaced.indent ctx.config = ctx.config.indentation page.level := by
        simp [spaced, Page.indent]
      rw [show (Item.block raw).levelAt page.level = page.level from rfl, ← hblock]
      rfl
  | _ =>
      simp only [place, itemLines, htag]
      rfl

/-- A text that is blank is not placed. -/
theorem place_of_not_isUnit (ctx : Context) (page : Page) {item : Item}
    (hunit : item.isUnit = false) :
    ctx.place page item = pure page ∧ (∀ indent, ctx.itemLines indent item = pure []) ∧
      item.levelAfter page.level = page.level := by
  cases item with
  | text raw =>
      have hblank : Text.isBlankText raw = true := by
        simpa [Item.isUnit] using hunit
      exact ⟨if_pos hblank, fun indent => congrArg pure (if_pos hblank), rfl⟩
  | _ => cases hunit

/-- Placing an item adds the lines of the item, moves the level, and asks what the lines ask. -/
theorem place_run (ctx : Context) (page : Page) (item : Item) (j : Journal) :
    let lines := (ctx.itemLines (ctx.config.indentation (item.levelAt page.level)) item).run j
    let placed := (ctx.place page item).run j
    placed.1.solidLines = page.solidLines ++ solid lines.1 ∧
      placed.1.level = item.levelAfter page.level ∧ placed.2 = lines.2 := by
  cases hunit : item.isUnit with
  | true =>
      intro lines placed
      have hplaced : placed = (((page.ready item).write lines.1).behind item, lines.2) := by
        simp only [placed, place_eq ctx page hunit]
        rfl
      rw [hplaced]
      refine ⟨?_, page.level_behind_ready item _, rfl⟩
      rw [Page.solidLines, Page.sheet_behind, ← Page.solidLines, Page.solidLines_write,
        Page.solidLines_ready]
  | false =>
      obtain ⟨hplace, hlines, hlevel⟩ := place_of_not_isUnit ctx page hunit
      rw [hplace, hlines, hlevel]
      exact ⟨(List.append_nil _).symm, rfl, rfl⟩

theorem placeAll_cons_run (ctx : Context) (page : Page) (item : Item) (items : List Item)
    (j : Journal) :
    (ctx.placeAll page (item :: items)).run j =
      (ctx.placeAll ((ctx.place page item).run j).1 items).run ((ctx.place page item).run j).2 :=
  rfl

theorem placeAll_append_run (ctx : Context) (page : Page) (items others : List Item)
    (j : Journal) :
    (ctx.placeAll page (items ++ others)).run j =
      (ctx.placeAll ((ctx.placeAll page items).run j).1 others).run
        ((ctx.placeAll page items).run j).2 := by
  induction items generalizing page j with
  | nil => rfl
  | cons item items ih => rw [List.cons_append, placeAll_cons_run, placeAll_cons_run, ih]

theorem itemsLines_cons_run (ctx : Context) (level : Nat) (item : Item) (items : List Item)
    (j : Journal) :
    (ctx.itemsLines level (item :: items)).run j =
      let lines := (ctx.itemLines (ctx.config.indentation (item.levelAt level)) item).run j
      let rest := (ctx.itemsLines (item.levelAfter level) items).run lines.2
      (solid lines.1 ++ rest.1, rest.2) :=
  rfl

/-- Placing items adds their lines in order. -/
theorem placeAll_run (ctx : Context) (page : Page) (items : List Item) (j : Journal) :
    let lines := (ctx.itemsLines page.level items).run j
    let placed := (ctx.placeAll page items).run j
    placed.1.solidLines = page.solidLines ++ lines.1 ∧ placed.2 = lines.2 := by
  induction items generalizing page j with
  | nil => exact ⟨(List.append_nil _).symm, rfl⟩
  | cons item items ih =>
      obtain ⟨hlines, hlevel, hjournal⟩ := place_run ctx page item j
      obtain ⟨hrest, hfinal⟩ :=
        ih ((ctx.place page item).run j).1 ((ctx.place page item).run j).2
      rw [hlevel, hjournal] at hrest hfinal
      rw [itemsLines_cons_run, placeAll_cons_run, hjournal]
      refine ⟨?_, hfinal⟩
      rw [hrest, hlines, List.append_assoc]

end Runs

end Context

end RazorLayout
