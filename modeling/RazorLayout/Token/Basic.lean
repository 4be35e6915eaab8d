import RazorLayout.Tag

/-!
# Tokens

A token is a piece of a template together with what it stands for.  Only tags carry a name or
attributes, and whether a tag is void follows from its name.
-/

namespace RazorLayout

/-- What a piece of a template stands for. -/
inductive TokenKind where
  | openTag (tag : Tag)
  | selfClosingTag (tag : Tag)
  | closeTag (name : Text)
  | text
  | comment
  | doctype
  | directive
  | block
  deriving DecidableEq, Repr

/-- A piece of a template. -/
structure Token where
  kind : TokenKind
  /-- The characters of the piece. -/
  raw : Text
  deriving DecidableEq, Repr

namespace TokenKind

/-- The name of the kind. -/
def label : TokenKind → Text
  | openTag _ => "TagOpen".toList
  | selfClosingTag _ => "TagSelfClose".toList
  | closeTag _ => "TagClose".toList
  | text => "Text".toList
  | comment => "Comment".toList
  | doctype => "Doctype".toList
  | directive => "DirectiveLine".toList
  | block => "ControlFlowBlock".toList

/-- The name of a tag. -/
def tagName? : TokenKind → Option Text
  | openTag tag => some tag.name
  | selfClosingTag tag => some tag.name
  | closeTag name => some name
  | _ => none

/-- The attributes of a tag. -/
def attributes : TokenKind → List Attribute
  | openTag tag => tag.attributes
  | selfClosingTag tag => tag.attributes
  | _ => []

/-- Whether the piece is the tag of a void element. -/
def isVoid : TokenKind → Bool
  | openTag tag => isVoidName tag.name
  | selfClosingTag tag => isVoidName tag.name
  | _ => false

/-- The lower-case name of an element whose content is kept, when its content starts here. -/
def preservedName? : TokenKind → Option Text
  | openTag tag => if isPreservedName tag.name then some (Text.lower tag.name) else none
  | _ => none

end TokenKind

namespace Token

/-- The first characters of a piece. -/
def preview (t : Token) : Text :=
  if t.raw.length ≤ 40 then t.raw else t.raw.take 37 ++ "...".toList

/-- A piece as it is shown to the reader. -/
def describe (t : Token) : Text :=
  '<' :: t.kind.label ++
    (match t.kind.tagName? with
      | none => []
      | some name => ':' :: name) ++
    ' ' :: quoted t.preview ++ ['>']

end Token

/-- The text that pieces make up. -/
def joinRaw (tokens : List Token) : Text :=
  tokens.flatMap Token.raw

end RazorLayout
