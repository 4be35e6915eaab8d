import RazorLayout.Text.Basic

/-!
# Line breaks of Unicode

Where a report is cut into lines, every line break of Unicode counts.  A break ends a line, so a
text that ends with a break has no line behind it.
-/

namespace RazorLayout

/-- A character that ends a line. -/
def isLineBreak (c : Char) : Bool :=
  (0x0A ≤ c.toNat && c.toNat ≤ 0x0D) || (0x1C ≤ c.toNat && c.toNat ≤ 0x1E) ||
    c.toNat == 0x85 || c.toNat == 0x2028 || c.toNat == 0x2029

namespace Text

/-- The last line of a text behind `line`, which is the current line read backwards.  `last` is the
line above. -/
def lastLineFrom (last line : Text) : Text → Text
  | [] => if line.isEmpty then last else line.reverse
  | '\r' :: '\n' :: cs => lastLineFrom line.reverse [] cs
  | c :: cs =>
      if isLineBreak c then lastLineFrom line.reverse [] cs else lastLineFrom last (c :: line) cs

/-- The last line of a text. -/
def lastLine (cs : Text) : Text :=
  lastLineFrom [] [] cs

end Text

end RazorLayout
