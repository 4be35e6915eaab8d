import RazorLayout.Layout.Block
import RazorLayout.Layout.Item
import RazorLayout.Layout.Sheet
import RazorLayout.Token.Lexer

/-!
# The layout of markup

Input.  The tokens of a piece of markup.

Algorithm.  The items are placed one after the other.  An opening tag moves what follows one level
in and a closing tag moves it back.  A few flags decide where blank lines go: around control-flow
blocks, and between the directives at the top and the first tag of the root.

Results.  `layout` gives the sheet and the flags, `formatMarkup` the text.
-/

namespace RazorLayout

/-- Where the layout stands. -/
structure Page where
  sheet : Sheet := {}
  /-- How many elements are open. -/
  level : Nat := 0
  /-- A control-flow block was placed last. -/
  afterBlock : Bool := false
  /-- An opening tag was placed last. -/
  justOpened : Bool := false
  /-- A directive was placed at the root. -/
  seenRootDirective : Bool := false
  /-- A tag was placed at the root. -/
  seenRootTag : Bool := false
  deriving DecidableEq, Repr

namespace Page

/-- The indentation of the current level. -/
def indent (config : Config) (p : Page) : Text :=
  config.indentation p.level

/-- Writes lines. -/
def write (p : Page) (lines : List Text) : Page :=
  { p with sheet := p.sheet.writeAll lines }

/-- Writes a blank line when `wanted`. -/
def gapIf (wanted : Bool) (p : Page) : Page :=
  if wanted then { p with sheet := p.sheet.gap } else p

/-- Gets ready for content: a blank line separates it from a block. -/
def beforeContent (p : Page) : Page :=
  { p.gapIf p.afterBlock with afterBlock := false, justOpened := false }

/-- Gets ready for a tag: a blank line also separates the first tag of the root from the directives
above it. -/
def beforeTag (p : Page) : Page :=
  let p := p.beforeContent
  if p.level = 0 ∧ p.seenRootTag = false then
    { p.gapIf p.seenRootDirective with seenRootTag := true }
  else p

end Page

namespace Context

section Tags

/-- The closing tag of an element. -/
def closingTag (name : Text) : Text :=
  "</".toList ++ name ++ ['>']

/-- The lines of a printed tag behind `indent`. -/
def tagLines (ctx : Context) (indent : Text) (tag : Tag) (ending : TagEnd) : List Text :=
  solid ((Text.lines (tag.print ctx.config indent.length ending)).map (indent ++ ·))

/-- Puts `tail` behind the last line. -/
def appendLast (tail : Text) : List Text → List Text
  | [] => [tail]
  | [line] => [line ++ tail]
  | line :: next :: rest => line :: appendLast tail (next :: rest)

/-- The lines of an inline element. -/
def inlineLines (ctx : Context) (indent : Text) (tag : Tag) (content : Text) : List Text :=
  let closing := content ++ closingTag tag.name
  if tag.isStacked ctx.config indent.length .opening then
    let printed := Text.lines (tag.print ctx.config indent.length .opening)
    solid ((appendLast closing printed).map (indent ++ ·))
  else [indent ++ tag.printInline .opening ++ closing]

/-- The lines of a preserved element.  Only style sheets can be laid out, when that is wanted. -/
def preservedLines (ctx : Context) (indent : Text) (tag : Tag) (content : Text) :
    Journaled (List Text) :=
  let opening := tag.printInline .opening
  let source := Text.stripEnd (Text.dedent content)
  if Text.lower tag.name = styleElement ∧ ctx.config.style.enabled = true ∧ source ≠ [] then do
    let size := ctx.config.styleIndentSize
    let output ← ctx.collaborators.askStyle source size
    pure ((indent ++ opening) :: Text.reindent (indent ++ Text.spaces size) output ++
      [indent ++ closingTag tag.name])
  else pure [indent ++ opening ++ content ++ closingTag tag.name]

/-- The lines of a text; inner blank lines ask for blank lines. -/
def textLines (indent raw : Text) : List Text :=
  (Text.lines (Text.strip raw)).map fun line =>
    if Text.isBlankText line then [] else indent ++ Text.strip line

/-- The line of a comment, a directive or a document type. -/
def trimmedLine (indent raw : Text) : List Text :=
  solid [indent ++ Text.strip raw]

end Tags

section Placing

/-- Places one item. -/
def place (ctx : Context) (page : Page) : Item → Journaled Page
  | .preserved tag content => do
      let p := page.beforeTag
      let lines ← ctx.preservedLines (p.indent ctx.config) tag content
      pure (p.write lines)
  | .inline tag content =>
      let p := page.beforeTag
      pure (p.write (ctx.inlineLines (p.indent ctx.config) tag content))
  | .openTag tag =>
      let p := page.beforeTag
      pure { p.write (ctx.tagLines (p.indent ctx.config) tag .opening) with
        level := p.level + 1, justOpened := true }
  | .selfClosingTag tag =>
      let p := page.beforeTag
      pure (p.write (ctx.tagLines (p.indent ctx.config) tag .selfClosing))
  | .closeTag name =>
      let p := { page with level := page.level - 1, afterBlock := false, justOpened := false }
      pure (p.write [p.indent ctx.config ++ closingTag name])
  | .text raw =>
      if Text.isBlankText raw then pure page
      else
        let p := page.beforeContent
        pure (p.write (textLines (p.indent ctx.config) raw))
  | .comment raw =>
      let p := page.beforeContent
      pure (p.write (trimmedLine (p.indent ctx.config) raw))
  | .doctype raw => pure (page.write (trimmedLine [] raw))
  | .directive raw =>
      let p := page.beforeContent
      pure { p.write (trimmedLine (p.indent ctx.config) raw) with
        seenRootDirective := p.seenRootDirective || p.level == 0 }
  | .block raw => do
      let p := { page.gapIf (!page.justOpened) with justOpened := false }
      let lines ← ctx.blockLines (p.indent ctx.config) raw
      pure { p.write lines with afterBlock := true }

/-- Places items in order. -/
def placeAll (ctx : Context) : Page → List Item → Journaled Page
  | page, [] => pure page
  | page, item :: items => do
      let page ← ctx.place page item
      ctx.placeAll page items

end Placing

/-- The page that tokens make up. -/
def layout (ctx : Context) (tokens : List Token) : Journaled Page :=
  ctx.placeAll {} (Item.ofTokens tokens)

end Context

section Nesting

/-- The layout of markup when blocks may be nested `n` more levels deep. -/
def formatWithin (config : Config) (collaborators : Collaborators) :
    Nat → Option (Text → Journaled Text)
  | 0 => none
  | n + 1 => some fun text => do
      let page ← Context.layout ⟨config, collaborators, formatWithin config collaborators n⟩
        (tokenize text)
      pure page.sheet.text

/-- The page of tokens that stand `depth` blocks deep. -/
def layoutAt (config : Config) (collaborators : Collaborators) (depth : Nat)
    (tokens : List Token) : Journaled Page :=
  let inner := formatWithin config collaborators (config.maxDepth - depth)
  Context.layout ⟨config, collaborators, inner⟩ tokens

/-- The layout of markup that stands `depth` blocks deep. -/
def formatMarkup (config : Config) (collaborators : Collaborators) (depth : Nat) (text : Text) :
    Journaled Text := do
  let page ← layoutAt config collaborators depth (tokenize text)
  pure page.sheet.text

end Nesting

end RazorLayout
