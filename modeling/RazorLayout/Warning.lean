import RazorLayout.Text.Quoted

/-!
# Warnings

A warning is a problem that did not stop the layout, with the line of the source where it is known.
-/

namespace RazorLayout

/-- A problem that did not stop the layout. -/
structure Warning where
  code : Text
  message : Text
  line : Option Int
  deriving DecidableEq, Repr

namespace Warning

/-- A warning; without a message of its own the code stands for it. -/
def make (code : Text) (message : Option Text) (line : Option Int) : Warning where
  code := code
  message :=
    match message with
    | none => code
    | some [] => code
    | some text => text
  line := line

/-- Whether two warnings report the same problem: code and line agree, the wording may differ. -/
def sameProblem (a b : Warning) : Bool :=
  a.code == b.code && a.line == b.line

/-- The warning as it is printed. -/
def text (w : Warning) : Text :=
  (match w.line with
    | none => []
    | some line => '(' :: intText line ++ "): ".toList) ++
  (if w.message = w.code then w.code else w.code ++ " - ".toList ++ w.message)

/-- The warning as it is shown to the reader. -/
def describe (w : Warning) : Text :=
  "FormatWarning(".toList ++ quoted w.code ++
    (match w.line with
      | none => []
      | some line => ", line=".toList ++ intText line) ++
    [')']

section Codes

/-- The code formatter did not do its work. -/
def codeFormatterError : Text := "code-formatter-error".toList

/-- The style formatter did not do its work. -/
def styleFormatterError : Text := "style-formatter-error".toList

/-- A block is nested too deep to be laid out. -/
def maxDepthExceeded : Text := "max-depth-exceeded".toList

/-- The warning for a block that is nested too deep. -/
def tooDeep (limit : Nat) : Warning :=
  make maxDepthExceeded (some ("nesting deeper than ".toList ++ natText limit ++ " levels".toList))
    none

end Codes

end Warning

end RazorLayout
