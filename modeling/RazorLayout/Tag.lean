import RazorLayout.Attribute.Basic
import RazorLayout.Config.Basic
import RazorLayout.Total

/-!
# Tags

The opening tag of an element, and its two printed forms: on one line, or *stacked* with the name
on the first line, each attribute on its own line and the closing bracket on the last line.
-/

namespace RazorLayout

/-- The name and the attributes of an opening tag. -/
structure Tag where
  name : Text
  attributes : List Attribute := []
  deriving DecidableEq, Repr

/-- How a printed tag ends. -/
inductive TagEnd where
  /-- The element goes on behind the tag. -/
  | opening
  /-- The tag is the whole element. -/
  | selfClosing
  deriving DecidableEq, Repr

namespace TagEnd

/-- The end of a tag on one line. -/
def inlineText : TagEnd → Text
  | opening => ['>']
  | selfClosing => " />".toList

/-- The last line of a stacked tag. -/
def stackedText : TagEnd → Text
  | opening => ['>']
  | selfClosing => "/>".toList

end TagEnd

namespace Tag

section Printing

/-- The tag on one line. -/
def inline (tag : Tag) (ending : TagEnd) : Text :=
  '<' :: tag.name ++ (tag.attributes.flatMap fun a => ' ' :: a.render) ++ ending.inlineText

/-- The width of the tag on one line. -/
def inlineWidth (tag : Tag) (ending : TagEnd) : Nat :=
  1 + tag.name.length + total (tag.attributes.map fun a => 1 + a.render.length) +
    ending.inlineText.length

/-- The tag with one attribute a line, each one level deeper. -/
def stacked (config : Config) (tag : Tag) (ending : TagEnd) : Text :=
  Text.unlines (('<' :: tag.name) :: (tag.attributes.map fun a => config.unit ++ a.render) ++
    [ending.stackedText])

/-- Whether the tag is stacked at an indentation of `width` spaces: it has attributes, and they are
too many or the line would be too wide. -/
def isStacked (config : Config) (width : Nat) (tag : Tag) (ending : TagEnd) : Bool :=
  !tag.attributes.isEmpty &&
    (decide (config.maxAttributesPerLine < tag.attributes.length) ||
      (decide (0 < config.maxLineLength) &&
        decide (config.maxLineLength < width + tag.inlineWidth ending)))

/-- The printed tag, without the indentation around it.  A tag without a name prints as nothing. -/
def print (config : Config) (width : Nat) (tag : Tag) (ending : TagEnd) : Text :=
  if tag.name.isEmpty then []
  else if tag.isStacked config width ending then tag.stacked config ending
  else tag.inline ending

/-- The printed tag on one line, whatever its width. -/
def printInline (tag : Tag) (ending : TagEnd) : Text :=
  if tag.name.isEmpty then [] else tag.inline ending

end Printing

theorem length_flatMap_render (attributes : List Attribute) :
    (attributes.flatMap fun a => ' ' :: a.render).length =
      total (attributes.map fun a => 1 + a.render.length) := by
  induction attributes with
  | nil => rfl
  | cons a rest ih =>
      simp only [List.flatMap_cons, List.length_append, List.length_cons, ih, List.map_cons,
        total_cons]
      omega

theorem length_inline (tag : Tag) (ending : TagEnd) :
    (tag.inline ending).length = tag.inlineWidth ending := by
  simp only [inline, inlineWidth, List.cons_append, List.length_cons, List.length_append,
    length_flatMap_render]
  omega

end Tag

end RazorLayout
