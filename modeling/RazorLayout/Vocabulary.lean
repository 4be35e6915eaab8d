import RazorLayout.Text.Basic

/-!
# The words of the template language

The closed lists that every decision of the reader and the printer rests on.  Element names are
compared in lower case, directive names and block keywords exactly as they are written.
-/

namespace RazorLayout

/-- The character that introduces directives, blocks and expressions. -/
def sigil : Char := '@'

section Elements

/-- Elements that never have content. -/
def voidElements : List Text :=
  ["area", "base", "br", "col", "embed", "hr", "img", "input", "link", "meta", "param", "source",
    "track", "wbr"].map String.toList

/-- The element whose content may be handed to a style collaborator. -/
def styleElement : Text := "style".toList

/-- Elements whose content is kept as it is. -/
def preservedElements : List Text :=
  ["script", "style", "pre", "textarea"].map String.toList

/-- Whether an element of this name never has content. -/
def isVoidName (name : Text) : Bool :=
  voidElements.contains name.lower

/-- Whether the content of an element of this name is kept as it is. -/
def isPreservedName (name : Text) : Bool :=
  preservedElements.contains name.lower

end Elements

/-- Directives that take the rest of their line. -/
def lineDirectives : List Text :=
  ["inject", "using", "namespace", "page", "model", "inherits", "implements", "layout",
    "attribute", "preservewhitespace", "typeparam", "rendermode"].map String.toList

/-- The keywords that a braced block starts with. -/
inductive Keyword where
  | ifBlock | forLoop | foreachLoop | whileLoop | doLoop | switchBlock | tryBlock | lockBlock
  | usingBlock | codeMembers | functionMembers | sectionBlock
  deriving DecidableEq, Repr

namespace Keyword

/-- The keyword as it is written. -/
def text : Keyword → Text
  | ifBlock => "if".toList
  | forLoop => "for".toList
  | foreachLoop => "foreach".toList
  | whileLoop => "while".toList
  | doLoop => "do".toList
  | switchBlock => "switch".toList
  | tryBlock => "try".toList
  | lockBlock => "lock".toList
  | usingBlock => "using".toList
  | codeMembers => "code".toList
  | functionMembers => "functions".toList
  | sectionBlock => "section".toList

/-- Every keyword. -/
def all : List Keyword :=
  [ifBlock, forLoop, foreachLoop, whileLoop, doLoop, switchBlock, tryBlock, lockBlock, usingBlock,
    codeMembers, functionMembers, sectionBlock]

/-- The keyword that is written as `word`. -/
def ofText? (word : Text) : Option Keyword :=
  all.find? fun keyword => keyword.text == word

@[simp] theorem ofText?_text (keyword : Keyword) : ofText? keyword.text = some keyword := by
  cases keyword <;> rfl

/-- Whether the braces hold members of the page's class, which are never laid out as markup. -/
def holdsMembers (keyword : Keyword) : Bool :=
  keyword == codeMembers || keyword == functionMembers

/-- The keywords of member blocks. -/
def memberKeywords : List Keyword :=
  all.filter holdsMembers

end Keyword

section Clauses

/-- The words of a clause with a condition that follows a block. -/
def elseIfWords : Text := "else if".toList

/-- The word of a clause without a condition that follows a block. -/
def elseWord : Text := "else".toList

/-- The word of an exception handler. -/
def catchWord : Text := "catch".toList

/-- The word of a clause that always runs. -/
def finallyWord : Text := "finally".toList

/-- The word of the test behind a loop body. -/
def whileWord : Text := "while".toList

/-- The word of a switch label with a pattern. -/
def caseWord : Text := "case".toList

/-- The word of the switch label without a pattern. -/
def defaultWord : Text := "default".toList

/-- The statement that ends a switch section. -/
def breakStatement : Text := "break;".toList

end Clauses

/-- How deep blocks may be nested, unless it is configured. -/
def defaultMaxDepth : Nat := 64

end RazorLayout
