import RazorLayout.Proofs.Layout.BlankLines

/-!
# The layout as a printer of trees

The layout walks along a flat list of tokens.  It keeps the number of open elements, looks ahead for
the closing tag of an inline element, and has a few flags.  Where the tokens are those of a tree,
without blocks, directives and preserved elements, this module says the same without any of it: a
printer that follows the tree.

* `Nodes` are trees with their siblings, and `Nodes.Flattens` says which tokens a tree has;
* `Nodes.printed` is the printer;
* `Context.Writes` says of items that they write certain lines wherever they are placed, provided
  that nothing above asks for a blank line.

Results.  `Flattens.ofTokens_append`: the items of a tree.  `Nodes.writes_items`: the items of a
tree write what the printer prints.  `layoutAt_flattens`: so the layout of a tree is what the
printer prints at the root.

One detail is not as in a plain printer.  At the root, where there is no indentation, a line of a
tag that holds nothing is left out: it comes from a value that runs over several lines.
-/

namespace RazorLayout

section Data

/-- Trees of markup: siblings, in order. -/
inductive Nodes where
  | nil
  | element (tag : Tag) (children rest : Nodes)
  | selfClosing (tag : Tag) (rest : Nodes)
  | text (raw : Text) (rest : Nodes)
  | comment (raw : Text) (rest : Nodes)
  deriving DecidableEq, Repr

namespace Nodes

/-- Tags have names, no element is preserved, and comments hold something. -/
def isProper : Nodes → Bool
  | nil => true
  | element tag children rest =>
      !tag.name.isEmpty && !isPreservedName tag.name && children.isProper && rest.isProper
  | selfClosing tag rest => !tag.name.isEmpty && rest.isProper
  | text _ rest => rest.isProper
  | comment raw rest => !Text.isBlankText raw && rest.isProper

/-- The tokens are those of the trees.  What the pieces of tags look like does not matter. -/
inductive Flattens : Nodes → List Token → Prop
  | nil : Flattens nil []
  | element {tag : Tag} {children rest : Nodes} {inner outer : List Token} (opening closing : Text)
      (hchildren : Flattens children inner) (hrest : Flattens rest outer) :
      Flattens (element tag children rest)
        (⟨.openTag tag, opening⟩ :: inner ++ ⟨.closeTag tag.name, closing⟩ :: outer)
  | selfClosing {tag : Tag} {rest : Nodes} {outer : List Token} (raw : Text)
      (hrest : Flattens rest outer) :
      Flattens (selfClosing tag rest) (⟨.selfClosingTag tag, raw⟩ :: outer)
  | text {raw : Text} {rest : Nodes} {outer : List Token} (hrest : Flattens rest outer) :
      Flattens (text raw rest) (⟨.text, raw⟩ :: outer)
  | comment {raw : Text} {rest : Nodes} {outer : List Token} (hrest : Flattens rest outer) :
      Flattens (comment raw rest) (⟨.comment, raw⟩ :: outer)

/-- The tokens of trees, with the pieces of tags as they are printed on one line. -/
def tokens : Nodes → List Token
  | nil => []
  | element tag children rest =>
      ⟨.openTag tag, tag.inline .opening⟩ :: children.tokens ++
        ⟨.closeTag tag.name, Context.closingTag tag.name⟩ :: rest.tokens
  | selfClosing tag rest => ⟨.selfClosingTag tag, tag.inline .selfClosing⟩ :: rest.tokens
  | text raw rest => ⟨.text, raw⟩ :: rest.tokens
  | comment raw rest => ⟨.comment, raw⟩ :: rest.tokens

theorem flattens_tokens (F : Nodes) : F.Flattens F.tokens := by
  induction F with
  | nil => exact .nil
  | element tag children rest ihchildren ihrest => exact .element _ _ ihchildren ihrest
  | selfClosing tag rest ih => exact .selfClosing _ ih
  | text raw rest ih => exact .text ih
  | comment raw rest ih => exact .comment ih

end Nodes

end Data

section Printing

/-- The lines of a tag at a level, each behind the indentation.  At the root they are passed
through `root`. -/
def tagEntries (root : List Text → List Text) (config : Config) (level : Nat) (ls : List Text) :
    List Text :=
  let entries := ls.map (config.indentation level ++ ·)
  if level = 0 then root entries else entries

/-- The lines of a text: trimmed, each behind the indentation, runs of blank lines cut down to an
empty one. -/
def textEntries (indent raw : Text) : List Text :=
  if Text.isBlankText raw then []
  else squeeze ((Text.lines (Text.strip raw)).map fun line =>
    if Text.isBlankText line then [] else indent ++ Text.strip line)

/-- An element in one piece: the opening tag, with the content and the closing tag behind its last
line. -/
def inlineEntries (root : List Text → List Text) (config : Config) (level : Nat) (tag : Tag)
    (content : Text) : List Text :=
  let closing := content ++ Context.closingTag tag.name
  if tag.isStacked config (config.indentation level).length .opening then
    let ls := Text.lines (tag.stacked config .opening)
    tagEntries root config level (ls.dropLast ++ [ls.getLastD [] ++ closing])
  else [config.indentation level ++ tag.inline .opening ++ closing]

namespace Nodes

/-- The trimmed texts that trees consist of, without the blank ones, when they are texts on one line
only. -/
def inlineTexts? : Nodes → Option (List Text)
  | nil => some []
  | text raw rest =>
      if Text.isMultiline raw then none
      else rest.inlineTexts?.map (Item.consSolid (Text.strip raw))
  | _ => none

/-- The lines of trees at a level.  The lines of a tag at the root are passed through `root`. -/
def printed (root : List Text → List Text) (config : Config) : Nat → Nodes → List Text
  | _, nil => []
  | level, element tag children rest =>
      let indent := config.indentation level
      (match children.inlineTexts? with
        | some parts => inlineEntries root config level tag (Text.joinWith [' '] parts)
        | none =>
            tagEntries root config level (Text.lines (tag.print config indent.length .opening)) ++
              children.printed root config (level + 1) ++
              [indent ++ Context.closingTag tag.name]) ++
        rest.printed root config level
  | level, selfClosing tag rest =>
      let indent := config.indentation level
      tagEntries root config level (Text.lines (tag.print config indent.length .selfClosing)) ++
        rest.printed root config level
  | level, text raw rest =>
      textEntries (config.indentation level) raw ++ rest.printed root config level
  | level, comment raw rest =>
      (config.indentation level ++ Text.strip raw) :: rest.printed root config level

end Nodes

end Printing

section Items

namespace Nodes

/-- The items of trees. -/
def items : Nodes → List Item
  | nil => []
  | element tag children rest =>
      (match children.inlineTexts? with
        | some parts => [.inline tag (Text.joinWith [' '] parts)]
        | none => .openTag tag :: children.items ++ [.closeTag tag.name]) ++ rest.items
  | selfClosing tag rest => .selfClosingTag tag :: rest.items
  | text raw rest => .text raw :: rest.items
  | comment raw rest => .comment raw :: rest.items

/-- The search for the content of an inline element succeeds where the children are texts on one
line. -/
theorem Flattens.splitInline?_eq {F : Nodes} {ts : List Token} (h : F.Flattens ts) {name : Text}
    {close : Token} (hclose : close.closes name = true) (more : List Token) :
    Item.splitInline? name (ts ++ close :: more) = F.inlineTexts?.map (·, more) := by
  induction h with
  | nil => simp [Item.splitInline?, hclose, inlineTexts?]
  | text hrest ih =>
      rename_i raw rest outer
      rw [List.cons_append, Item.splitInline?, if_neg (by simp [Token.closes]), ih, inlineTexts?]
      cases Text.isMultiline raw <;> cases rest.inlineTexts? <;> simp
  | element => simp [Item.splitInline?, Token.closes, inlineTexts?]
  | selfClosing => simp [Item.splitInline?, Token.closes, inlineTexts?]
  | comment => simp [Item.splitInline?, Token.closes, inlineTexts?]

/-- The tokens of trees form the items of the trees. -/
theorem Flattens.ofTokens_append {F : Nodes} {ts : List Token} (h : F.Flattens ts)
    (hproper : F.isProper = true) (more : List Token) :
    Item.ofTokens (ts ++ more) = F.items ++ Item.ofTokens more := by
  induction h generalizing more with
  | nil => rfl
  | @element tag children rest inner outer opening closing hchildren hrest ihchildren ihrest =>
      simp only [isProper, Bool.and_eq_true, Bool.not_eq_true'] at hproper
      obtain ⟨⟨⟨-, hpreserved⟩, hpropers⟩, hproper⟩ := hproper
      have hclose : Token.closes (Text.lower tag.name) ⟨.closeTag tag.name, closing⟩ = true := by
        simp [Token.closes]
      have hsplit := hchildren.splitInline?_eq hclose (outer ++ more)
      have hopen : Item.ofOpenTag tag (inner ++ ⟨.closeTag tag.name, closing⟩ :: (outer ++ more)) =
          match children.inlineTexts? with
          | some parts => (.inline tag (Text.joinWith [' '] parts), outer ++ more)
          | none => (.openTag tag, inner ++ ⟨.closeTag tag.name, closing⟩ :: (outer ++ more)) := by
        rw [Item.ofOpenTag, Item.splitPreserved?, if_neg (by simp [hpreserved]), hsplit]
        cases children.inlineTexts? <;> rfl
      rw [List.append_assoc, List.cons_append, List.cons_append, Item.ofTokens]
      simp only [hopen, items]
      cases children.inlineTexts? with
      | some parts => rw [ihrest hproper]; rfl
      | none =>
          rw [ihchildren hpropers, Item.ofTokens]
          simp only [Item.ofToken, ihrest hproper]
          simp
  | selfClosing raw hrest ih =>
      simp only [isProper, Bool.and_eq_true] at hproper
      simp [Item.ofTokens, Item.ofToken, items, ih hproper.2]
  | text hrest ih => simp [Item.ofTokens, Item.ofToken, items, ih hproper]
  | comment hrest ih =>
      simp only [isProper, Bool.and_eq_true] at hproper
      simp [Item.ofTokens, Item.ofToken, items, ih hproper.2]

end Nodes

end Items

namespace Context

section Writing

/-- Nothing above asks for a blank line in front of an item that is no block. -/
def IsCalm (above : List Item) : Prop :=
  ∀ item ∈ above, item.isBlock = false ∧ item.isDirective = false

/-- Placed on a page of a level with nothing above that asks for a blank line, the items write these
lines and lead to another such page.  Nobody is asked. -/
def Writes (ctx : Context) (level : Nat) (items : List Item) (after : Nat) (ls : List Text) :
    Prop :=
  ∀ (page : Page) (above : List Item) (j : Journal),
    page.Follows above → IsCalm above → page.level = level →
    let placed := (ctx.placeAll page items).run j
    placed.1.sheet.toLines = page.sheet.toLines ++ ls ∧ placed.2 = j ∧ placed.1.level = after ∧
      ∃ above', placed.1.Follows above' ∧ IsCalm above'

variable {ctx : Context} {level middle after : Nat} {items others : List Item} {ls ms : List Text}
variable {item : Item}

theorem isSeparated_of_isCalm {above : List Item} (h : IsCalm above)
    (hitem : item.isBlock = false) :
    Item.isSeparated above item = false := by
  have hnearest : (Item.nearest? above).any Item.isBlock = false := by
    cases hfind : Item.nearest? above with
    | none => rfl
    | some other => exact (h other (List.mem_of_find?_eq_some hfind)).1
  have hroot : Item.hasAtRoot Item.isDirective above = false := by
    clear hnearest
    induction above with
    | nil => rfl
    | cons other above ih =>
        obtain ⟨hother, habove⟩ := List.forall_mem_cons.1 h
        rw [Item.hasAtRoot, ih habove, hother.2]
        rfl
  simp [Item.isSeparated, hitem, hnearest, hroot]

theorem writes_nil : ctx.Writes level [] level [] := by
  intro page above j hpage hcalm hlevel
  exact ⟨(List.append_nil _).symm, rfl, hlevel, above, hpage, hcalm⟩

theorem Writes.append (h : ctx.Writes level items middle ls)
    (h' : ctx.Writes middle others after ms) :
    ctx.Writes level (items ++ others) after (ls ++ ms) := by
  intro page above j hpage hcalm hlevel
  obtain ⟨hlines, hjournal, hmiddle, above', hpage', hcalm'⟩ := h page above j hpage hcalm hlevel
  obtain ⟨hmore, hjournal', hafter⟩ := h' _ above' j hpage' hcalm' hmiddle
  rw [placeAll_append_run, hjournal]
  refine ⟨?_, hjournal', hafter⟩
  rw [hmore, hlines, List.append_assoc]

/-- An item that asks nobody writes its lines. -/
theorem writes_item (hunit : item.isUnit = true) (hsolid : item.IsSolid)
    (hcalm : item.isBlock = false ∧ item.isDirective = false)
    (hlines : ctx.itemLines (ctx.config.indentation (item.levelAt level)) item = pure ls) :
    ctx.Writes level [item] (item.levelAfter level) (squeeze ls) := by
  rintro page above j hpage habove hlevel
  subst hlevel
  have hframed : IsFramed ls := by
    have h := ctx.isFramed_itemLines (ctx.config.indentation (item.levelAt page.level)) hsolid j
    rwa [hlines] at h
  obtain ⟨hwritten, hfollows⟩ := hpage.write item hframed
  rw [isSeparated_of_isCalm habove hcalm.1] at hwritten
  have hplaced : (ctx.placeAll page [item]).run j =
      (((page.ready item).write ls).behind item, j) := by
    rw [placeAll_cons_run, place_eq ctx page hunit, hlines]
    rfl
  rw [hplaced]
  exact ⟨hwritten, rfl, page.level_behind_ready item ls, item :: above, hfollows,
    List.forall_mem_cons.2 ⟨hcalm, habove⟩⟩

end Writing

section Kinds

variable (ctx : Context) (level : Nat)

theorem solid_behind_indentation (config : Config) (ls : List Text) :
    solid (ls.map (config.indentation level ++ ·)) = tagEntries solid config level ls := by
  rw [tagEntries]
  split
  · rfl
  · rename_i hlevel
    refine solid_of_forall_ne_nil ?_
    simp [config.indentation_ne_nil hlevel]

theorem squeeze_solid (ls : List Text) : squeeze (solid ls) = solid ls := by
  refine squeeze_of_forall_ne_nil fun line hline => ?_
  simpa using (List.mem_filter.1 hline).2

theorem writes_openTag {tag : Tag} (hname : tag.name ≠ []) :
    ctx.Writes level [.openTag tag] (level + 1) (tagEntries solid ctx.config level
      (Text.lines (tag.print ctx.config (ctx.config.indentation level).length .opening))) := by
  rw [← solid_behind_indentation, ← squeeze_solid]
  exact writes_item rfl hname ⟨rfl, rfl⟩ rfl

theorem writes_selfClosingTag {tag : Tag} (hname : tag.name ≠ []) :
    ctx.Writes level [.selfClosingTag tag] level (tagEntries solid ctx.config level
      (Text.lines (tag.print ctx.config (ctx.config.indentation level).length .selfClosing))) := by
  rw [← solid_behind_indentation, ← squeeze_solid]
  exact writes_item rfl hname ⟨rfl, rfl⟩ rfl

theorem writes_inline {tag : Tag} (hname : tag.name ≠ []) (content : Text) :
    ctx.Writes level [.inline tag content] level
      (inlineEntries solid ctx.config level tag content) := by
  have hempty : tag.name.isEmpty = false := by
    simpa using hname
  have hentries : inlineEntries solid ctx.config level tag content =
      squeeze (ctx.inlineLines (ctx.config.indentation level) tag content) := by
    simp only [inlineEntries, inlineLines, Tag.print, Tag.printInline, hempty]
    cases hstacked : tag.isStacked ctx.config (ctx.config.indentation level).length .opening with
    | true =>
        have hne := Text.lines_ne_nil (tag.stacked ctx.config .opening)
        have hlast : appendLast (content ++ closingTag tag.name)
              (Text.lines (tag.stacked ctx.config .opening)) =
            (Text.lines (tag.stacked ctx.config .opening)).dropLast ++
              [(Text.lines (tag.stacked ctx.config .opening)).getLastD [] ++
                (content ++ closingTag tag.name)] := by
          conv_lhs => rw [← List.dropLast_concat_getLast hne]
          rw [appendLast_concat, List.getLastD_eq_getLast?, List.getLast?_eq_some_getLast hne]
          rfl
        simp only [if_true, Bool.false_eq_true, if_false]
        rw [hlast, squeeze_solid, solid_behind_indentation]
    | false =>
        simp only [Bool.false_eq_true, if_false]
        exact (squeeze_of_forall_ne_nil (by simp [closingTag])).symm
  rw [hentries]
  exact writes_item rfl hname ⟨rfl, rfl⟩ rfl

theorem writes_closeTag (name : Text) :
    ctx.Writes (level + 1) [.closeTag name] level
      [ctx.config.indentation level ++ closingTag name] := by
  have hitem : (Item.closeTag name).IsSolid := trivial
  exact writes_item rfl hitem ⟨rfl, rfl⟩ rfl

theorem writes_text (raw : Text) :
    ctx.Writes level [.text raw] level (textEntries (ctx.config.indentation level) raw) := by
  cases hblank : Text.isBlankText raw with
  | true =>
      have hunit : (Item.text raw).isUnit = false := by
        simp [Item.isUnit, hblank]
      intro page above j hpage hcalm hlevel
      rw [placeAll_cons_run, (place_of_not_isUnit ctx page hunit).1, textEntries, if_pos hblank]
      exact writes_nil page above j hpage hcalm hlevel
  | false =>
      have hunit : (Item.text raw).isUnit = true := by
        simp [Item.isUnit, hblank]
      rw [textEntries, if_neg (by simp [hblank])]
      refine writes_item hunit hblank ⟨rfl, rfl⟩ ?_
      rw [itemLines, if_neg (by simp [hblank])]
      rfl

theorem writes_comment {raw : Text} (hraw : Text.isBlankText raw = false) :
    ctx.Writes level [.comment raw] level [ctx.config.indentation level ++ Text.strip raw] := by
  have hne : ctx.config.indentation level ++ Text.strip raw ≠ [] := by
    rw [ne_eq, List.append_eq_nil_iff, Text.strip_eq_nil_iff, hraw]
    simp
  have hlines : trimmedLine (ctx.config.indentation level) raw =
      [ctx.config.indentation level ++ Text.strip raw] :=
    solid_of_forall_ne_nil (by simpa using hne)
  have hitem : (Item.comment raw).IsSolid := hraw
  exact writes_item rfl hitem ⟨rfl, rfl⟩ (congrArg pure hlines)

end Kinds

end Context

namespace Nodes

/-- The items of trees write what the printer prints. -/
theorem writes_items (ctx : Context) (F : Nodes) (hproper : F.isProper = true) (level : Nat) :
    ctx.Writes level F.items level (F.printed solid ctx.config level) := by
  induction F generalizing level with
  | nil => exact Context.writes_nil
  | element tag children rest ihchildren ihrest =>
      simp only [isProper, Bool.and_eq_true, Bool.not_eq_true', List.isEmpty_eq_false_iff]
        at hproper
      obtain ⟨⟨⟨hname, -⟩, hchildren⟩, hrest⟩ := hproper
      simp only [items, printed]
      refine Context.Writes.append ?_ (ihrest hrest level)
      cases children.inlineTexts? with
      | some parts => exact ctx.writes_inline level hname _
      | none =>
          exact ((ctx.writes_openTag level hname).append (ihchildren hchildren (level + 1))).append
            (ctx.writes_closeTag level tag.name)
  | selfClosing tag rest ih =>
      simp only [isProper, Bool.and_eq_true, Bool.not_eq_true', List.isEmpty_eq_false_iff]
        at hproper
      exact (ctx.writes_selfClosingTag level hproper.1).append (ih hproper.2 level)
  | text raw rest ih => exact (ctx.writes_text level raw).append (ih hproper level)
  | comment raw rest ih =>
      simp only [isProper, Bool.and_eq_true, Bool.not_eq_true'] at hproper
      exact (ctx.writes_comment level hproper.1).append (ih hproper.2 level)

end Nodes

/-- The layout is a printer of trees.  The layout of the tokens of a tree is what the printer prints
at the root, where empty lines of tags are left out; it ends at the root, and nobody is asked. -/
theorem layoutAt_flattens (config : Config) (c : Collaborators) (depth : Nat) {F : Nodes}
    (hproper : F.isProper = true) {ts : List Token} (h : F.Flattens ts) (j : Journal) :
    let placed := (layoutAt config c depth ts).run j
    placed.1.sheet.toLines = F.printed solid config 0 ∧ placed.1.level = 0 ∧ placed.2 = j := by
  intro placed
  let ctx : Context := ⟨config, c, formatWithin config c (config.maxDepth - depth)⟩
  have hitems : Item.ofTokens ts = F.items := by
    have happend := h.ofTokens_append hproper []
    rwa [List.append_nil, Item.ofTokens, List.append_nil] at happend
  have hplaced : placed = (ctx.placeAll {} F.items).run j := by
    rw [← hitems]
    rfl
  obtain ⟨hlines, hjournal, hlevel, -⟩ :=
    F.writes_items ctx hproper 0 {} [] j Page.follows_empty (by simp [Context.IsCalm]) rfl
  rw [hplaced]
  exact ⟨hlines, hlevel, hjournal⟩

/-- An element inside one of the same name, among texts and a comment. -/
def sampleNodes : Nodes :=
  .element ⟨"div".toList, []⟩
    (.text "\n a \n\n\n b ".toList
      (.element ⟨"div".toList, [⟨"x".toList, some "1".toList, none⟩, ⟨"y".toList, none, none⟩]⟩
        (.text "c ".toList (.text " d".toList .nil))
        (.comment " <!-- e -->\n".toList (.selfClosing ⟨"br".toList, []⟩ .nil))))
    .nil

theorem layoutAt_flattens_sampleNodes :
    ((layoutAt .standard {} 0 sampleNodes.tokens).run {}).1.sheet.toLines =
      ["<div>", "    a", "", "    b", "    <div", "        x=\"1\"", "        y", "    >c d</div>",
        "    <!-- e -->", "    <br />", "</div>"].map String.toList :=
  (layoutAt_flattens .standard {} 0 (by decide +kernel) sampleNodes.flattens_tokens {}).1.trans
    (by decide +kernel)

/-- A value with an empty line, in a tag at the root: the empty line is not printed. -/
theorem layoutAt_leaves_out_line :
    let t := "<a x=\"1\n\n2\"/>".toList
    let tag : Tag := ⟨"a".toList, [⟨"x".toList, some "1\n\n2".toList, some ['"']⟩]⟩
    let F : Nodes := .selfClosing tag .nil
    F.isProper = true ∧ F.Flattens (tokenize t) ∧
      F.printed id .standard 0 = ["<a x=\"1", "", "2\" />"].map String.toList ∧
      ((layoutAt .standard {} 0 (tokenize t)).run {}).1.sheet.toLines ≠
        F.printed id .standard 0 := by
  intro t tag F
  have htokens : tokenize t = [⟨.selfClosingTag tag, t⟩] := by
    decide +kernel
  refine ⟨by decide +kernel, ?_, by decide +kernel, by decide +kernel⟩
  rw [htokens]
  exact .selfClosing t .nil

end RazorLayout
