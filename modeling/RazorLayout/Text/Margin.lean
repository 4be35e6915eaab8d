import RazorLayout.Text.Basic

/-!
# Margins

Moving a block of lines to the left margin and away from it.  A line counts as blank by the
Unicode notion, while only spaces and tabs make up an indentation.

* `dedent` removes the common margin of the lines that are not blank;
* `indent` puts a lead in front of those lines.

Both drop the blank lines at the top and turn the other blank lines into empty ones.
-/

namespace RazorLayout

namespace Margin

/-- The number of spaces and tabs at the front of a line. -/
def width (line : Text) : Nat :=
  (line.takeWhile isTabOrSpace).length

/-- The common margin: the least indentation of a line that is not blank. -/
def common (ls : List Text) : Nat :=
  (((ls.filter fun line => !line.isBlankText).map width).min?).getD 0

/-- The lines from the first one that is not blank. -/
def body (ls : List Text) : List Text :=
  ls.dropWhile Text.isBlankText

/-- Changes the lines that are not blank by `f` and empties the others. -/
def mapSolid (f : Text → Text) (ls : List Text) : List Text :=
  ls.map fun line => if line.isBlankText then [] else f line

end Margin

namespace Text

/-- The text moved to the left margin. -/
def dedent (cs : Text) : Text :=
  let ls := cs.lines
  unlines (Margin.mapSolid (List.drop (Margin.common ls)) (Margin.body ls))

/-- The lines of the text behind `lead`. -/
def indent (lead cs : Text) : List Text :=
  Margin.mapSolid (lead ++ ·) (Margin.body cs.lines)

/-- The text moved to the left margin and from there behind `lead`, without trailing blanks. -/
def reindent (lead cs : Text) : List Text :=
  indent lead cs.dedent.stripEnd

end Text

end RazorLayout
