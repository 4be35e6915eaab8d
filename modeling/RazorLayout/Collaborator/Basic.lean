import RazorLayout.Journal

/-!
# Collaborators

The layout leaves code and style sheets to collaborators.  A collaborator answers a text, and may
remember what has been asked before: it is a function of the earlier calls.  Whatever goes wrong
with it becomes a warning, and the text that it was asked about stays as it is.
-/

namespace RazorLayout

/-- The answer of a code collaborator. -/
structure CodeAnswer where
  output : Option Text
  error : Option Text
  deriving DecidableEq, Repr

/-- The collaborators of a layout. -/
structure Collaborators where
  /-- Lays out code, if there is someone who does. -/
  code : Option (Calls → Text → Except Fault CodeAnswer) := none
  /-- Lays out a style sheet at an indentation.  By default the text is handed back. -/
  style : Calls → Text → Nat → Except Fault (Option Text) := fun _ text _ => .ok (some text)

/-- The output of a code collaborator, or the reason why there is none.  A reported error outweighs
an output. -/
def codeVerdict : Except Fault CodeAnswer → Except Text Text
  | .error fault => .error fault.text
  | .ok ⟨_, some error⟩ => .error error
  | .ok ⟨some output, none⟩ => .ok output
  | .ok ⟨none, none⟩ => .error "code formatter returned no output".toList

namespace Collaborators

/-- Asks the code collaborator.  There is no result without a collaborator, nor when it fails. -/
def askCode (c : Collaborators) (line : Option Int) (text : Text) : Journaled (Option Text) :=
  fun journal =>
    match c.code with
    | none => (none, journal)
    | some code =>
        let asked := journal.askedCode text
        match codeVerdict (code journal.calls text) with
        | .ok output => (some output, asked)
        | .error error =>
            (none, (asked.log (.codeFailed line error)).warn
              (.make Warning.codeFormatterError (some error) line))

/-- Asks the style collaborator.  When it fails the text stays as it is. -/
def askStyle (c : Collaborators) (text : Text) (size : Nat) : Journaled Text :=
  fun journal =>
    let asked := journal.askedStyle text size
    match c.style journal.calls text size with
    | .ok (some output) => (output, asked)
    | .ok none => (text, asked)
    | .error fault =>
        (text, (asked.log (.styleFailed fault)).warn
          (.make Warning.styleFormatterError (some fault.text) none))

end Collaborators

end RazorLayout
