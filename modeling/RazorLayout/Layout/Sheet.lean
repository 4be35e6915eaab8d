import RazorLayout.Text.Basic

/-!
# The sheet

The lines that a layout has written.  A blank line is written only below a line that is not blank,
so a sheet never starts with a blank line and never has two in a row.
-/

namespace RazorLayout

/-- The lines written so far, the latest first. -/
structure Sheet where
  latest : List Text := []
  deriving DecidableEq, Repr

namespace Sheet

/-- Writes a blank line, unless the sheet is empty or its last line is blank. -/
def gap (s : Sheet) : Sheet :=
  match s.latest with
  | [] => s
  | [] :: _ => s
  | line :: rest => ⟨[] :: line :: rest⟩

/-- Writes a line; an empty one asks for a blank line. -/
def write (s : Sheet) (line : Text) : Sheet :=
  if line.isEmpty then s.gap else ⟨line :: s.latest⟩

/-- Writes lines in order. -/
def writeAll (s : Sheet) (lines : List Text) : Sheet :=
  lines.foldl write s

/-- The lines from top to bottom. -/
def toLines (s : Sheet) : List Text :=
  s.latest.reverse

/-- The text of the sheet. -/
def text (s : Sheet) : Text :=
  Text.unlines s.toLines

end Sheet

/-- The lines that hold something. -/
def solid (lines : List Text) : List Text :=
  lines.filter fun line => !line.isEmpty

end RazorLayout
