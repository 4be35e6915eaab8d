import Mathlib.Data.List.Destutter
import RazorLayout.Proofs.Layout.Clauses
import RazorLayout.Proofs.Layout.Content
import RazorLayout.Proofs.Token.Pieces

/-!
# Blank lines

Input.  The items of a template, one after the other.

The page keeps a few flags about what was placed before, and writes a blank line where they ask for
one.  Here the rule is said without flags, from the items that stand above: `isSeparated` says
between which items a blank line stands, and `spaced` writes the entries of items down with blank
lines by that rule.

* `squeeze` cuts every run of empty lines down to one, which is what a sheet does to the lines that
  it is given;
* `IsNeat` says of entries that neither the first nor the last is empty and no two in a row are;
* `Page.Follows` is the invariant: each flag is a function of the items above.

Results.  `toLines_writeAll_of_isFramed`: what a sheet holds after lines were written.
`Page.Follows.write`: placing an item keeps the invariant and separates the item by the rule.
`placeAll_spaced`: so does a run.  `layoutAt_spaced`: the layout of a template is the entries of its
items with blank lines by the rule and nowhere else.
-/

namespace RazorLayout

section Squeezing

/-- One of two lines holds something. -/
def Apart (line next : Text) : Prop :=
  line ≠ [] ∨ next ≠ []

instance : DecidableRel Apart :=
  fun line next => inferInstanceAs (Decidable (line ≠ [] ∨ next ≠ []))

/-- The lines with every run of empty ones cut down to one. -/
def squeeze (ls : List Text) : List Text :=
  ls.destutter Apart

/-- Lines of which neither the first nor the last is empty, and no two in a row are. -/
structure IsNeat (ls : List Text) : Prop where
  head : ∀ line ∈ ls.head?, line ≠ []
  last : ∀ line ∈ ls.getLast?, line ≠ []
  apart : ls.IsChain Apart

/-- Lines of which the first and the last hold something. -/
structure IsFramed (ls : List Text) : Prop where
  ne_nil : ls ≠ []
  head : ∀ line ∈ ls.head?, line ≠ []
  last : ∀ line ∈ ls.getLast?, line ≠ []

variable {ls ms : List Text}

theorem isNeat_nil : IsNeat [] where
  head := by simp
  last := by simp
  apart := .nil

theorem isFramed_singleton {line : Text} (h : line ≠ []) : IsFramed [line] where
  ne_nil := by simp
  head := by simpa using h
  last := by simpa using h

theorem isFramed_cons_concat {first last : Text} (hfirst : first ≠ []) (hlast : last ≠ [])
    (ls : List Text) : IsFramed (first :: ls ++ [last]) where
  ne_nil := by simp
  head := by simpa using hfirst
  last := by
    rw [List.getLast?_concat]
    simpa using hlast

/-- Lines that hold something are framed by each other. -/
theorem isFramed_of_forall (hne : ls ≠ []) (h : ∀ line ∈ ls, line ≠ []) : IsFramed ls where
  ne_nil := hne
  head := fun line hline => h line (List.mem_of_mem_head? hline)
  last := fun line hline => h line (List.mem_of_mem_getLast? hline)

theorem isFramed_solid {line : Text} (hmem : line ∈ ls) (hline : line ≠ []) :
    IsFramed (solid ls) := by
  have hsolid : line ∈ solid ls := List.mem_filter.2 ⟨hmem, by simpa using hline⟩
  refine isFramed_of_forall (List.ne_nil_of_mem hsolid) ?_
  intro other hother
  simpa using (List.mem_filter.1 hother).2

theorem IsFramed.append (hls : IsFramed ls) (hms : ms = [] ∨ IsFramed ms) :
    IsFramed (ls ++ ms) := by
  rcases hms with rfl | hms
  · simpa using hls
  · refine ⟨by simp [hls.ne_nil], ?_, ?_⟩
    · rw [List.head?_append_of_ne_nil ls hls.ne_nil]
      exact hls.head
    · rw [List.getLast?_append_of_ne_nil ls hms.ne_nil]
      exact hms.last

theorem IsNeat.append (hls : IsNeat ls) (hms : IsNeat ms) : IsNeat (ls ++ ms) where
  head := by
    intro line hline
    rw [List.head?_append, Option.mem_def, Option.or_eq_some_iff] at hline
    rcases hline with hline | ⟨-, hline⟩
    · exact hls.head line hline
    · exact hms.head line hline
  last := by
    intro line hline
    rw [List.getLast?_append, Option.mem_def, Option.or_eq_some_iff] at hline
    rcases hline with hline | ⟨-, hline⟩
    · exact hms.last line hline
    · exact hls.last line hline
  apart := hls.apart.append hms.apart fun line hline _ _ => Or.inl (hls.last line hline)

/-- Neat lines with an empty line between them are neat, provided that there are lines on both
sides. -/
theorem IsNeat.append_gap (hls : IsNeat ls) (hne : ls ≠ []) (hms : IsNeat ms) (hne' : ms ≠ []) :
    IsNeat (ls ++ [] :: ms) where
  head := by
    rw [List.head?_append_of_ne_nil ls hne]
    exact hls.head
  last := by
    rw [List.getLast?_append_of_ne_nil ls (List.cons_ne_nil _ _), List.getLast?_cons]
    obtain ⟨line, hline⟩ := Option.isSome_iff_exists.1 (List.getLast?_isSome.2 hne')
    rw [hline]
    simpa using hms.last line hline
  apart := by
    refine hls.apart.append (List.isChain_cons.2 ⟨?_, hms.apart⟩) ?_
    · exact fun line hline => Or.inr (hms.head line hline)
    · exact fun line hline _ _ => Or.inl (hls.last line hline)

/-- The last line is the last one that is left. -/
theorem getLast?_destutter' (line : Text) (ls : List Text) :
    (ls.destutter' Apart line).getLast? = (line :: ls).getLast? := by
  induction ls generalizing line with
  | nil => rfl
  | cons next ls ih =>
      by_cases h : Apart line next
      · rw [List.destutter'_cons_pos _ h, List.getLast?_cons, ih]
        simp [List.getLast?_cons]
      · -- Both lines are empty, and one of them is left.
        simp only [Apart, not_or, not_not] at h
        obtain ⟨rfl, rfl⟩ := h
        rw [List.destutter'_cons_neg _ (by simp [Apart]), ih]
        simp [List.getLast?_cons]

theorem head?_destutter' (line : Text) (ls : List Text) :
    (ls.destutter' Apart line).head? = some line := by
  induction ls with
  | nil => rfl
  | cons next ls ih =>
      by_cases h : Apart line next
      · rw [List.destutter'_cons_pos _ h]
        rfl
      · rw [List.destutter'_cons_neg _ h, ih]

/-- Framed lines are neat once they are squeezed. -/
theorem IsFramed.isNeat_squeeze (h : IsFramed ls) : IsNeat (squeeze ls) ∧ squeeze ls ≠ [] := by
  obtain ⟨line, ls, rfl⟩ := List.exists_cons_of_ne_nil h.ne_nil
  refine ⟨⟨?_, ?_, List.isChain_destutter' _ _ _⟩, List.destutter'_ne_nil _ _⟩
  · rw [squeeze, List.destutter_cons', head?_destutter']
    exact h.head
  · rw [squeeze, List.destutter_cons', getLast?_destutter']
    exact h.last

/-- Without empty lines there is nothing to squeeze. -/
theorem squeeze_of_forall_ne_nil (h : ∀ line ∈ ls, line ≠ []) : squeeze ls = ls := by
  refine List.destutter_of_isChain Apart ls ?_
  induction ls with
  | nil => exact .nil
  | cons line ls ih =>
      obtain ⟨hline, hls⟩ := List.forall_mem_cons.1 h
      exact List.isChain_cons.2 ⟨fun next _ => Or.inl hline, ih hls⟩

end Squeezing

namespace Sheet

/-- A sheet squeezes the lines below its last one. -/
theorem toLines_writeAll (line : Text) (above ls : List Text) :
    (writeAll ⟨line :: above⟩ ls).toLines = above.reverse ++ ls.destutter' Apart line := by
  induction ls generalizing line above with
  | nil => simp [writeAll, toLines]
  | cons next ls ih =>
      have hstep : writeAll ⟨line :: above⟩ (next :: ls) =
          (write ⟨line :: above⟩ next).writeAll ls := rfl
      by_cases h : Apart line next
      · have hwrite : write ⟨line :: above⟩ next = ⟨next :: line :: above⟩ := by
          cases next with
          | nil =>
              cases line with
              | nil => simp [Apart] at h
              | cons c line => rfl
          | cons c next => rfl
        rw [hstep, hwrite, ih, List.destutter'_cons_pos _ h]
        simp
      · simp only [Apart, not_or, not_not] at h
        obtain ⟨rfl, rfl⟩ := h
        rw [hstep, List.destutter'_cons_neg _ (by simp [Apart])]
        exact ih [] above

/-- What a sheet holds after framed lines were written. -/
theorem toLines_writeAll_of_isFramed (s : Sheet) {ls : List Text} (h : IsFramed ls) :
    (s.writeAll ls).toLines = s.toLines ++ squeeze ls := by
  obtain ⟨line, ls, rfl⟩ := List.exists_cons_of_ne_nil h.ne_nil
  have hline : line ≠ [] := h.head line rfl
  have hstep : s.writeAll (line :: ls) = writeAll ⟨line :: s.latest⟩ ls := by
    simp [writeAll, write, hline]
  rw [hstep, toLines_writeAll]
  rfl

end Sheet

namespace Item

section Kinds

/-- Whether the item is a tag or starts with one: an element in one piece, the opening tag of an
element, or a tag that is a whole element. -/
def isTag : Item → Bool
  | preserved _ _ => true
  | inline _ _ => true
  | openTag _ => true
  | selfClosingTag _ => true
  | _ => false

/-- Whether the item is the opening tag of an element. -/
def isOpenTag : Item → Bool
  | openTag _ => true
  | _ => false

/-- Whether the item is a closing tag. -/
def isCloseTag : Item → Bool
  | closeTag _ => true
  | _ => false

/-- Whether the item is a document type. -/
def isDoctype : Item → Bool
  | doctype _ => true
  | _ => false

/-- Whether the item is a line directive. -/
def isDirective : Item → Bool
  | directive _ => true
  | _ => false

/-- Whether the item is a block. -/
def isBlock : Item → Bool
  | block _ => true
  | _ => false

end Kinds

/-! The items above an item are listed from the nearest one upwards. -/

section Above

/-- The level behind items. -/
def levelBehind : List Item → Nat
  | [] => 0
  | item :: above => item.levelAfter (levelBehind above)

/-- The nearest item that is no document type. -/
def nearest? (above : List Item) : Option Item :=
  above.find? fun item => !item.isDoctype

/-- Whether one of the items has the property `p` and stands at the root. -/
def hasAtRoot (p : Item → Bool) : List Item → Bool
  | [] => false
  | item :: above => hasAtRoot p above || (p item && levelBehind above == 0)

/-- Whether a blank line stands in front of an item with other items above:

* in front of a block, unless the nearest item is the opening tag that the block stands in;
* behind a block, unless a closing tag or a document type follows;
* in front of the first tag at the root, when there is a directive at the root above.

A document type does not count as the nearest item, but there has to be something above. -/
def isSeparated (above : List Item) (item : Item) : Bool :=
  (item.isBlock &&
      (match nearest? above with
        | some other => !other.isOpenTag
        | none => !above.isEmpty)) ||
    ((nearest? above).any isBlock && !item.isCloseTag && !item.isDoctype) ||
    (item.isTag && levelBehind above == 0 && !hasAtRoot isTag above &&
      hasAtRoot isDirective above)

/-- The entries of items, with blank lines by the rule. -/
def spaced : List Item → List (Item × List Text) → List Text
  | _, [] => []
  | above, (item, entries) :: rest =>
      (if isSeparated above item then [[]] else []) ++ entries ++ spaced (item :: above) rest

variable {above : List Item} {item : Item}

theorem nearest?_cons (above : List Item) (item : Item) :
    nearest? (item :: above) = if item.isDoctype then nearest? above else some item := by
  cases h : item.isDoctype <;> simp [nearest?, h]

/-- With nothing above there is no blank line. -/
theorem isSeparated_nil (item : Item) : isSeparated [] item = false := by
  simp [isSeparated, nearest?, hasAtRoot]

/-- Neat entries stay neat with blank lines between them. -/
theorem isNeat_append_spaced {ls : List Text} (hls : IsNeat ls) {above : List Item}
    (habove : ls = [] → above = []) {entries : List (Item × List Text)}
    (hentries : ∀ entry ∈ entries, IsNeat entry.2 ∧ entry.2 ≠ []) :
    IsNeat (ls ++ spaced above entries) := by
  induction entries generalizing ls above with
  | nil => simpa [spaced] using hls
  | cons entry entries ih =>
      obtain ⟨item, lines⟩ := entry
      obtain ⟨⟨hlines, hne⟩, hrest⟩ := List.forall_mem_cons.1 hentries
      have hfirst : IsNeat (ls ++ ((if isSeparated above item then [[]] else []) ++ lines)) := by
        by_cases hnil : ls = []
        · rw [habove hnil, isSeparated_nil, hnil]
          exact hlines
        · split
          · exact hls.append_gap hnil hlines hne
          · exact hls.append hlines
      rw [spaced, ← List.append_assoc]
      exact ih hfirst (by simp [hne]) hrest

end Above

end Item

namespace Page

section Flags

/-- Whether the flags of a page ask for a blank line in front of an item. -/
def wantsGap (p : Page) : Item → Bool
  | .closeTag _ => false
  | .doctype _ => false
  | .text _ => p.afterBlock
  | .comment _ => p.afterBlock
  | .directive _ => p.afterBlock
  | .block _ => !p.justOpened
  | _ => p.afterBlock || (p.level == 0 && !p.seenRootTag && p.seenRootDirective)

variable (p : Page) (item : Item) (ls : List Text)

theorem sheet_gapIf (wanted : Bool) :
    (p.gapIf wanted).sheet = if wanted then p.sheet.gap else p.sheet := by
  cases wanted <;> rfl

theorem gap_gap (s : Sheet) : s.gap.gap = s.gap := by
  obtain ⟨latest⟩ := s
  rcases latest with _ | ⟨_ | ⟨c, line⟩, rest⟩ <;> rfl

theorem sheet_beforeTag : p.beforeTag.sheet =
    if p.afterBlock || (p.level == 0 && !p.seenRootTag && p.seenRootDirective) then p.sheet.gap
    else p.sheet := by
  obtain ⟨sheet, level, afterBlock, justOpened, seenRootDirective, seenRootTag⟩ := p
  simp only [beforeTag, beforeContent, gapIf]
  cases afterBlock <;> cases seenRootDirective <;> cases seenRootTag <;> cases level <;>
    simp [gap_gap]

theorem sheet_ready : (p.ready item).sheet =
    if p.wantsGap item then p.sheet.gap else p.sheet := by
  cases item with
  | closeTag name => rfl
  | doctype raw => rfl
  | block raw => exact p.sheet_gapIf _
  | text raw => exact p.sheet_gapIf _
  | comment raw => exact p.sheet_gapIf _
  | directive raw => exact p.sheet_gapIf _
  | _ => exact p.sheet_beforeTag

theorem flags_beforeTag : p.beforeTag.afterBlock = false ∧ p.beforeTag.justOpened = false ∧
    p.beforeTag.seenRootDirective = p.seenRootDirective ∧
    p.beforeTag.seenRootTag = (p.seenRootTag || p.level == 0) := by
  obtain ⟨sheet, level, afterBlock, justOpened, seenRootDirective, seenRootTag⟩ := p
  simp only [beforeTag, beforeContent, gapIf]
  cases afterBlock <;> cases seenRootDirective <;> cases seenRootTag <;> cases level <;> simp

theorem flags_beforeContent :
    p.beforeContent.seenRootDirective = p.seenRootDirective ∧
    p.beforeContent.seenRootTag = p.seenRootTag := by
  obtain ⟨sheet, level, afterBlock, justOpened, seenRootDirective, seenRootTag⟩ := p
  cases afterBlock <;> exact ⟨rfl, rfl⟩

/-- What placing an item does to the flags. -/
theorem flags_behind_ready :
    let q := ((p.ready item).write ls).behind item
    q.afterBlock = (if item.isDoctype then p.afterBlock else item.isBlock) ∧
      q.justOpened = (if item.isDoctype then p.justOpened else item.isOpenTag) ∧
      q.seenRootDirective = (p.seenRootDirective || (item.isDirective && p.level == 0)) ∧
      q.seenRootTag = (p.seenRootTag || (item.isTag && p.level == 0)) := by
  obtain ⟨htagBlock, htagOpened, htagDirective, htagTag⟩ := p.flags_beforeTag
  obtain ⟨hdirective, htag⟩ := p.flags_beforeContent
  have hlevel := p.level_beforeContent
  -- An item of another kind leaves the flags of the root alone.
  have hkeep : ∀ b : Bool, b = (b || (false && p.level == 0)) := by simp
  cases item with
  | block raw =>
      refine ⟨rfl, rfl, ?_, ?_⟩ <;> cases h : p.justOpened <;>
        simp [behind, ready, write, gapIf, Item.isDirective, Item.isTag, h]
  | closeTag name => exact ⟨rfl, rfl, hkeep _, hkeep _⟩
  | doctype raw => exact ⟨rfl, rfl, hkeep _, hkeep _⟩
  | text raw => exact ⟨rfl, rfl, hdirective.trans (hkeep _), htag.trans (hkeep _)⟩
  | comment raw => exact ⟨rfl, rfl, hdirective.trans (hkeep _), htag.trans (hkeep _)⟩
  | directive raw =>
      refine ⟨rfl, rfl, ?_, htag.trans (hkeep _)⟩
      show (p.beforeContent.seenRootDirective || p.beforeContent.level == 0) = _
      rw [hdirective, hlevel]
      rfl
  | openTag tag => exact ⟨htagBlock, rfl, htagDirective.trans (hkeep _), htagTag⟩
  | _ => exact ⟨htagBlock, htagOpened, htagDirective.trans (hkeep _), htagTag⟩

end Flags

section Following

/-- The page behind items: its flags are functions of the items, and its last entry holds
something. -/
structure Follows (p : Page) (above : List Item) : Prop where
  level : p.level = Item.levelBehind above
  afterBlock : p.afterBlock = (Item.nearest? above).any Item.isBlock
  justOpened : p.justOpened = (Item.nearest? above).any Item.isOpenTag
  seenRootDirective : p.seenRootDirective = Item.hasAtRoot Item.isDirective above
  seenRootTag : p.seenRootTag = Item.hasAtRoot Item.isTag above
  toLines_eq_nil : p.sheet.toLines = [] ↔ above = []
  getLast? : ∀ line ∈ p.sheet.toLines.getLast?, line ≠ []

variable {p : Page} {above : List Item} {item : Item} {ls : List Text}

theorem follows_empty : ({} : Page).Follows [] where
  level := rfl
  afterBlock := rfl
  justOpened := rfl
  seenRootDirective := rfl
  seenRootTag := rfl
  toLines_eq_nil := by simp [Sheet.toLines]
  getLast? := by simp [Sheet.toLines]

/-- The flags ask for a blank line by the rule. -/
theorem Follows.isSeparated_eq (h : p.Follows above) (item : Item) :
    Item.isSeparated above item = (p.wantsGap item && !above.isEmpty) := by
  cases above with
  | nil => simp [Item.isSeparated_nil]
  | cons other above =>
      simp only [List.isEmpty_cons, Bool.not_false, Bool.and_true]
      cases item with
      | block raw =>
          simp only [Item.isSeparated, wantsGap, h.justOpened, Item.isBlock, Item.isCloseTag,
            Item.isDoctype, Item.isTag]
          cases Item.nearest? (other :: above) with
          | none => simp
          | some nearest => cases nearest <;> simp [Item.isOpenTag, Item.isBlock]
      | _ =>
          simp [Item.isSeparated, wantsGap, h.afterBlock, h.level, h.seenRootTag,
            h.seenRootDirective, Item.isBlock, Item.isCloseTag, Item.isDoctype, Item.isTag]

theorem toLines_gap {s : Sheet} (hlast : ∀ line ∈ s.toLines.getLast?, line ≠ []) :
    s.gap.toLines = s.toLines ++ if s.toLines = [] then [] else [[]] := by
  obtain ⟨latest⟩ := s
  rcases latest with _ | ⟨_ | ⟨c, line⟩, rest⟩
  · rfl
  · simp [Sheet.toLines] at hlast
  · simp [Sheet.gap, Sheet.toLines]

/-- Placing an item adds its entries, with a blank line in front by the rule, and the page follows
one item more. -/
theorem Follows.write (h : p.Follows above) (item : Item) (hls : IsFramed ls) :
    let q := ((p.ready item).write ls).behind item
    q.sheet.toLines = p.sheet.toLines ++
        ((if Item.isSeparated above item then [[]] else []) ++ squeeze ls) ∧
      q.Follows (item :: above) := by
  intro q
  have hready : (p.ready item).sheet.toLines =
      p.sheet.toLines ++ if Item.isSeparated above item then [[]] else [] := by
    rw [p.sheet_ready item, h.isSeparated_eq]
    cases p.wantsGap item with
    | false => simp
    | true => simp [toLines_gap h.getLast?, h.toLines_eq_nil]
  have hlines : q.sheet.toLines = p.sheet.toLines ++
      ((if Item.isSeparated above item then [[]] else []) ++ squeeze ls) := by
    rw [sheet_behind, Page.write, Sheet.toLines_writeAll_of_isFramed _ hls, hready,
      List.append_assoc]
  obtain ⟨hneat, hne⟩ := hls.isNeat_squeeze
  obtain ⟨hblock, hopened, hdirective, htag⟩ := p.flags_behind_ready item ls
  refine ⟨hlines, ?_, ?_, ?_, ?_, ?_, ?_, ?_⟩
  · rw [p.level_behind_ready item ls, h.level]
    rfl
  · rw [hblock, Item.nearest?_cons, h.afterBlock]
    split <;> rfl
  · rw [hopened, Item.nearest?_cons, h.justOpened]
    split <;> rfl
  · rw [hdirective, h.seenRootDirective, h.level]
    rfl
  · rw [htag, h.seenRootTag, h.level]
    rfl
  · rw [hlines]
    simp [hne]
  · rw [hlines, List.getLast?_append_of_ne_nil _ (by simp [hne]),
      List.getLast?_append_of_ne_nil _ hne]
    exact hneat.last

end Following

end Page

namespace Item

section Solidity

/-- An item that the layout can print: a tag has a name, and nothing else is blank. -/
def IsSolid : Item → Prop
  | preserved tag _ => tag.name ≠ []
  | inline tag _ => tag.name ≠ []
  | openTag tag => tag.name ≠ []
  | selfClosingTag tag => tag.name ≠ []
  | closeTag _ => True
  | text raw => Text.isBlankText raw = false
  | comment raw => Text.isBlankText raw = false
  | doctype raw => Text.isBlankText raw = false
  | directive raw => Text.isBlankText raw = false
  | block raw => Text.isBlankText raw = false

/-- The items of a template that are written can be printed. -/
theorem isSolid_ofTokens (t : Text) :
    ∀ item ∈ ofTokens (tokenize t), item.isUnit = true → item.IsSolid := by
  have htokens : ∀ token ∈ tokenize t, token.kind.tagName? ≠ some [] ∧
      (token.kind ≠ .text → Text.isBlankText token.raw = false) := fun token htoken =>
    ⟨tokenize_tagName? t token htoken, isBlankText_raw t token htoken⟩
  refine forall_mem_ofTokens ?_ ?_ htokens
  · rintro token tag ts ⟨hname, -⟩ hkind -
    have htag : tag.name ≠ [] := by
      intro hnil
      exact hname (by simp [hkind, TokenKind.tagName?, hnil])
    unfold ofOpenTag
    split
    · exact htag
    · split
      · exact htag
      · exact htag
  · rintro ⟨kind, raw⟩ ⟨hname, hraw⟩ hunit
    have hsome : ∀ {name : Text}, kind.tagName? = some name → name ≠ [] := by
      rintro name hkind rfl
      exact hname hkind
    cases kind with
    | openTag tag => exact hsome rfl
    | selfClosingTag tag => exact hsome rfl
    | closeTag name => exact trivial
    | text =>
        have htext : Text.isBlankText raw = false := by
          simpa [ofToken, isUnit] using hunit
        exact htext
    | comment => exact hraw (by simp)
    | doctype => exact hraw (by simp)
    | directive => exact hraw (by simp)
    | block =>
        have hblock : Text.isBlankText raw = false := hraw (by simp)
        simp only [ofToken]
        split <;> exact hblock

end Solidity

end Item

namespace Context

section Entries

variable (ctx : Context) (indent : Text)

/-- A printed tag starts with an angle bracket. -/
theorem exists_print_eq_cons {tag : Tag} (hname : tag.name ≠ []) (config : Config) (width : Nat)
    (ending : TagEnd) : ∃ rest, tag.print config width ending = '<' :: rest := by
  rw [Tag.print, if_neg (by simpa using hname)]
  split
  · exact ⟨_, Text.unlines_consLine '<' (List.cons_ne_nil tag.name _)⟩
  · exact ⟨_, rfl⟩

theorem isFramed_tagLines {tag : Tag} (hname : tag.name ≠ []) (ending : TagEnd) :
    IsFramed (ctx.tagLines indent tag ending) := by
  obtain ⟨rest, hprint⟩ := exists_print_eq_cons hname ctx.config indent.length ending
  obtain ⟨line, more, hlines⟩ := List.exists_cons_of_ne_nil (Text.lines_ne_nil rest)
  have hsolid : indent ++ '<' :: line ≠ [] := by
    simp
  refine isFramed_solid ?_ hsolid
  rw [hprint, Text.lines, if_neg (by decide), hlines]
  exact List.mem_cons_self

theorem isFramed_inlineLines (tag : Tag) (content : Text) :
    IsFramed (ctx.inlineLines indent tag content) := by
  simp only [inlineLines]
  split
  · -- The last line holds the closing tag.
    have hne := Text.lines_ne_nil (tag.print ctx.config indent.length .opening)
    rw [← List.dropLast_concat_getLast hne, appendLast_concat, List.map_append]
    exact isFramed_solid (List.mem_append_right _ (List.mem_singleton.2 rfl))
      (by simp [closingTag])
  · exact isFramed_singleton (by simp [closingTag])

theorem isFramed_textLines {raw : Text} (hraw : Text.isBlankText raw = false) :
    IsFramed (textLines indent raw) := by
  have hline : ∀ line : Text, Text.isBlankText line = false →
      (if Text.isBlankText line then [] else indent ++ Text.strip line) ≠ [] := by
    intro line hsolid
    rw [hsolid, if_neg (by simp), ne_eq, List.append_eq_nil_iff, Text.strip_eq_nil_iff, hsolid]
    simp
  obtain ⟨⟨c, rest, hfirst, hc⟩, d, hlast, hd⟩ := Text.strip_eq_cons hraw
  refine ⟨by simp [textLines, Text.lines_ne_nil], ?_, ?_⟩
  · obtain ⟨line, more, hlines⟩ := List.exists_cons_of_ne_nil (Text.lines_ne_nil rest)
    have hne : c ≠ '\n' := by
      rintro rfl
      cases hc
    rw [textLines, hfirst, Text.lines, if_neg hne, hlines, Text.consLine]
    simpa using hline (c :: line) (by simp [Text.isBlankText, hc])
  · obtain ⟨init, hinit⟩ := List.getLast?_eq_some_iff.1 hlast
    have hne : d ≠ '\n' := by
      rintro rfl
      cases hd
    obtain ⟨front, last, first, more, -, hsingle, happend⟩ := Text.exists_lines_append init [d]
    rw [Text.lines_of_isLine (by simpa [Text.IsLine] using hne.symm)] at hsingle
    obtain ⟨rfl, rfl⟩ := List.cons.inj hsingle
    rw [textLines, hinit, happend, List.map_append, List.map_singleton, List.getLast?_concat]
    simpa using hline (last ++ [d]) (by simp [Text.isBlankText, hd])

theorem isFramed_trimmedLine {raw : Text} (hraw : Text.isBlankText raw = false) :
    IsFramed (trimmedLine indent raw) := by
  have hstrip : Text.strip raw ≠ [] := by
    rw [ne_eq, Text.strip_eq_nil_iff, hraw]
    simp
  exact isFramed_solid List.mem_cons_self (by simp [hstrip])

theorem isFramed_preservedLines (tag : Tag) (content : Text) (hname : tag.name ≠ [])
    (j : Journal) : IsFramed ((ctx.preservedLines indent tag content).run j).1 := by
  have hopening : indent ++ tag.printInline .opening ≠ [] := by
    simp [Tag.printInline_eq _ hname, Tag.inline]
  have hclosing : indent ++ closingTag tag.name ≠ [] := by
    simp [closingTag]
  simp only [preservedLines]
  split
  · exact isFramed_cons_concat hopening hclosing _
  · exact isFramed_singleton (by simp [closingTag])

theorem isFramed_rawLines {raw : Text} (hraw : Text.isBlankText raw = false) :
    IsFramed (rawLines indent raw) := by
  refine isFramed_singleton ?_
  rw [ne_eq, List.append_eq_nil_iff, Text.strip_eq_nil_iff, hraw]
  simp

/-- A block starts with its first head and ends with its last brace. -/
theorem isFramed_partsLines (tail : Text) {parts : List Part} (hne : parts ≠ [])
    (hheads : ∀ part ∈ parts, part.head ≠ []) : IsFramed (partsLines indent tail parts) := by
  have hpart : ∀ (tail : Text) {part : Part}, part.head ≠ [] → IsFramed (part.lines indent tail) :=
    fun tail part hhead => isFramed_cons_concat (by simp [hhead]) (by simp) _
  fun_induction partsLines indent tail parts with
  | case1 => exact absurd rfl hne
  | case2 part => exact hpart tail (hheads part List.mem_cons_self)
  | case3 part next parts ih =>
      obtain ⟨hfirst, hothers⟩ := List.forall_mem_cons.1 hheads
      exact (hpart [] hfirst).append (Or.inr (ih (List.cons_ne_nil _ _) hothers))

theorem clauseHead_text_ne_nil (head : ClauseHead) : head.text ≠ [] := by
  have hwords : elseIfWords ≠ [] ∧ elseWord ≠ [] ∧ catchWord ≠ [] ∧ finallyWord ≠ [] := by
    decide +kernel
  cases head <;> simp [ClauseHead.text, hwords]

theorem head_ne_nil_of_mem_clauseParts {clauses : List Clause} {bodies : List (List Text)}
    {part : Part} (h : part ∈ clauseParts clauses bodies) : part.head ≠ [] := by
  induction clauses generalizing bodies with
  | nil => simp [clauseParts] at h
  | cons clause clauses ih =>
      cases bodies with
      | nil => simp [clauseParts] at h
      | cons body bodies =>
          rcases List.mem_cons.1 h with rfl | h
          · exact clauseHead_text_ne_nil clause.head
          · exact ih h

theorem isFramed_codeLines (format : Text → Journaled Text) (body : Text) (j : Journal) :
    IsFramed ((ctx.codeLines format indent body).run j).1 := by
  have hopening : indent ++ "@\x7b".toList ≠ [] := by
    simp
  have hclosing : indent ++ ['}'] ≠ [] := by
    simp
  rcases hasked : (ctx.collaborators.askCode none body).run j with ⟨answer, asked⟩
  simp only [codeLines, StateT.run_bind, hasked]
  cases answer with
  | none => exact isFramed_cons_concat hopening hclosing _
  | some output => exact isFramed_cons_concat hopening hclosing _

theorem isFramed_flowLines (format : Text → Journaled Text) (f : Flow) (j : Journal) :
    IsFramed ((ctx.flowLines format indent f).run j).1 := by
  have hheader : f.header ≠ [] := by
    simp [Flow.header]
  obtain ⟨config, c, nested⟩ := ctx
  cases hsections : sections? f with
  | none =>
      rw [flowLines_run_of_plain format config c nested hsections indent j]
      refine isFramed_partsLines indent _ (List.cons_ne_nil _ _) ?_
      exact List.forall_mem_cons.2 ⟨hheader, fun part => head_ne_nil_of_mem_clauseParts⟩
  | some cases =>
      rw [flowLines_run_of_sections format config c nested hsections indent j]
      exact isFramed_cons_concat (by simp [hheader]) (by simp) _

theorem isFramed_blockLines {raw : Text} (hraw : Text.isBlankText raw = false) (j : Journal) :
    IsFramed ((ctx.blockLines indent raw).run j).1 := by
  unfold blockLines
  split
  · exact isFramed_rawLines indent hraw
  · rename_i format _
    split
    · exact ctx.isFramed_codeLines indent format _ j
    · exact ctx.isFramed_flowLines indent format _ j
    · exact isFramed_rawLines indent hraw

/-- The lines of an item that is written are framed. -/
theorem isFramed_itemLines {item : Item} (h : item.IsSolid) (j : Journal) :
    IsFramed ((ctx.itemLines indent item).run j).1 := by
  cases item with
  | preserved tag content => exact ctx.isFramed_preservedLines indent tag content h j
  | inline tag content => exact ctx.isFramed_inlineLines indent tag content
  | openTag tag => exact ctx.isFramed_tagLines indent h .opening
  | selfClosingTag tag => exact ctx.isFramed_tagLines indent h .selfClosing
  | closeTag name => exact isFramed_singleton (by simp [closingTag])
  | text raw =>
      have hraw : Text.isBlankText raw = false := h
      simp only [itemLines, hraw]
      exact isFramed_textLines indent hraw
  | comment raw => exact isFramed_trimmedLine indent h
  | doctype raw => exact isFramed_trimmedLine indent h
  | directive raw => exact isFramed_trimmedLine indent h
  | block raw => exact ctx.isFramed_blockLines indent h j

end Entries

section Runs

variable (ctx : Context)

/-- The entries of items, from a level on: every item with its lines, runs of empty lines cut down
to one. -/
def itemEntries : Nat → List Item → Journaled (List (Item × List Text))
  | _, [] => pure []
  | level, item :: items => do
      let lines ← ctx.itemLines (ctx.config.indentation (item.levelAt level)) item
      let rest ← itemEntries (item.levelAfter level) items
      pure ((item, squeeze lines) :: rest)

theorem itemEntries_cons_run (level : Nat) (item : Item) (items : List Item) (j : Journal) :
    (ctx.itemEntries level (item :: items)).run j =
      let lines := (ctx.itemLines (ctx.config.indentation (item.levelAt level)) item).run j
      let rest := (ctx.itemEntries (item.levelAfter level) items).run lines.2
      ((item, squeeze lines.1) :: rest.1, rest.2) :=
  rfl

/-- The entries of items that can be printed: every item has its own, and they are neat. -/
theorem isNeat_itemEntries {items : List Item} (hitems : ∀ item ∈ items, item.IsSolid)
    (level : Nat) (j : Journal) :
    let entries := ((ctx.itemEntries level items).run j).1
    entries.map Prod.fst = items ∧ ∀ entry ∈ entries, IsNeat entry.2 ∧ entry.2 ≠ [] := by
  induction items generalizing level j with
  | nil => exact ⟨rfl, fun entry hentry => nomatch hentry⟩
  | cons item items ih =>
      obtain ⟨hitem, hitems⟩ := List.forall_mem_cons.1 hitems
      obtain ⟨hfst, hneat⟩ := ih hitems (item.levelAfter level) _
      rw [itemEntries_cons_run]
      exact ⟨congrArg (item :: ·) hfst,
        List.forall_mem_cons.2 ⟨(ctx.isFramed_itemLines _ hitem j).isNeat_squeeze, hneat⟩⟩

/-- Placing items adds the entries of those that are written, with blank lines by the rule. -/
theorem placeAll_spaced {page : Page} {above : List Item} (hpage : page.Follows above)
    {items : List Item} (hitems : ∀ item ∈ items, item.isUnit = true → item.IsSolid)
    (j : Journal) :
    let entries := (ctx.itemEntries page.level (items.filter Item.isUnit)).run j
    let placed := (ctx.placeAll page items).run j
    placed.1.sheet.toLines = page.sheet.toLines ++ Item.spaced above entries.1 ∧
      placed.2 = entries.2 := by
  induction items generalizing page above j with
  | nil => exact ⟨(List.append_nil _).symm, rfl⟩
  | cons item items ih =>
      obtain ⟨hitem, hitems⟩ := List.forall_mem_cons.1 hitems
      rw [placeAll_cons_run]
      cases hunit : item.isUnit with
      | false =>
          obtain ⟨hplace, -, -⟩ := ctx.place_of_not_isUnit page hunit
          rw [hplace, List.filter_cons_of_neg (by simp [hunit])]
          exact ih hpage hitems j
      | true =>
          rw [List.filter_cons_of_pos hunit, itemEntries_cons_run, ctx.place_eq page hunit]
          let lines := (ctx.itemLines (ctx.config.indentation (item.levelAt page.level)) item).run j
          let next := ((page.ready item).write lines.1).behind item
          obtain ⟨hlines, hnext⟩ :=
            hpage.write item (ctx.isFramed_itemLines _ (hitem hunit) j)
          have hlevel : next.level = item.levelAfter page.level :=
            page.level_behind_ready item lines.1
          obtain ⟨hrest, hjournal⟩ := ih hnext hitems lines.2
          rw [hlevel] at hrest hjournal
          refine ⟨?_, hjournal⟩
          rw [hlines, List.append_assoc] at hrest
          exact hrest

end Runs

end Context

/-- Blank lines stand in a layout by the rule and nowhere else.  The layout of a template is the
entries of the items that are written, in order, with a blank line between two of them exactly where
the rule separates them; neither the first line nor the last is empty, and no two in a row are. -/
theorem layoutAt_spaced (config : Config) (c : Collaborators) (depth : Nat) (t : Text)
    (j : Journal) :
    let ctx : Context := ⟨config, c, formatWithin config c (config.maxDepth - depth)⟩
    let units := (Item.ofTokens (tokenize t)).filter Item.isUnit
    let entries := (ctx.itemEntries 0 units).run j
    let placed := (layoutAt config c depth (tokenize t)).run j
    entries.1.map Prod.fst = units ∧
      (∀ entry ∈ entries.1, IsNeat entry.2 ∧ entry.2 ≠ []) ∧
      placed.1.sheet.toLines = Item.spaced [] entries.1 ∧
      IsNeat placed.1.sheet.toLines ∧ placed.2 = entries.2 := by
  intro ctx units entries placed
  have hsolid := Item.isSolid_ofTokens t
  have hunits : ∀ item ∈ units, item.IsSolid := by
    intro item hitem
    obtain ⟨hmem, hunit⟩ := List.mem_filter.1 hitem
    exact hsolid item hmem hunit
  obtain ⟨hfst, hneat⟩ := ctx.isNeat_itemEntries hunits 0 j
  obtain ⟨hlines, hjournal⟩ := ctx.placeAll_spaced Page.follows_empty hsolid j
  have hplaced : placed.1.sheet.toLines = Item.spaced [] entries.1 := hlines
  refine ⟨hfst, hneat, hplaced, ?_, hjournal⟩
  rw [hplaced]
  exact Item.isNeat_append_spaced isNeat_nil (fun _ => rfl) hneat

end RazorLayout
