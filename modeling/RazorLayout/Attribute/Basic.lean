import RazorLayout.Text.Quoted

/-!
# Attributes

An attribute of a tag: a name and, unless it is a bare switch, a value together with the quote that
is written around it.
-/

namespace RazorLayout

/-- An attribute of a tag. -/
structure Attribute where
  name : Text
  /-- The value; a bare attribute has none. -/
  value : Option Text := none
  /-- The quote to write around the value. -/
  quote : Option Text := none
  deriving DecidableEq, Repr

namespace Attribute

/-- The quote around the value: the double quote, unless the attribute brings its own. -/
def quoteText (a : Attribute) : Text :=
  match a.quote with
  | none => ['"']
  | some [] => ['"']
  | some quote => quote

/-- The attribute as it is written in a tag. -/
def render (a : Attribute) : Text :=
  match a.value with
  | none => a.name
  | some value => a.name ++ '=' :: a.quoteText ++ value ++ a.quoteText

/-- The attribute as it is shown to the reader. -/
def describe (a : Attribute) : Text :=
  "Attribute(".toList ++ quoted a.name ++ ", ".toList ++ quotedOption a.value ++ ", ".toList ++
    quotedOption a.quote ++ [')']

end Attribute

end RazorLayout
