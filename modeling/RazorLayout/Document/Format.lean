import RazorLayout.Document.Region
import RazorLayout.Layout.Markup

/-!
# The layout of documents

Input.  A whole document.

Algorithm.  The member blocks that own their lines go to the code collaborator and stay as they are
when it has no answer.  The markup between them is laid out piece by piece; where a piece touches a
member block, one blank line of it survives on that side.

Line endings survive: a document that has a carriage return in front of some line feed gets one in
front of every line feed, and a line feed at the end stays.
-/

namespace RazorLayout

section LineEndings

/-- Whether a carriage return and a line feed stand together. -/
def hasCrLf : Text → Bool
  | '\r' :: '\n' :: _ => true
  | _ :: cs => hasCrLf cs
  | [] => false

/-- The text with every such pair replaced by a line feed. -/
def dropCr : Text → Text
  | '\r' :: '\n' :: cs => '\n' :: dropCr cs
  | c :: cs => c :: dropCr cs
  | [] => []

/-- The text with a carriage return put in front of every line feed. -/
def addCr (cs : Text) : Text :=
  cs.flatMap fun c => if c = '\n' then ['\r', '\n'] else [c]

end LineEndings

section Pieces

/-- The lines of a piece of markup.  `afterCode` and `beforeCode` say which of its sides touch a
member block. -/
def markupLines (config : Config) (collaborators : Collaborators) (afterCode beforeCode : Bool)
    (chunk : List Text) : Journaled (List Text) :=
  match chunk with
  | [] => pure []
  | first :: _ =>
      let text := Text.unlines chunk
      if config.formatHtml && !Text.isBlankText text then do
        let laidOut ← formatMarkup config collaborators 0 text
        let above := if afterCode && Text.isBlankText first then [[]] else []
        let below :=
          if beforeCode && Text.isBlankText (chunk.getLast?.getD first) then [[]] else []
        pure (above ++ Text.lines laidOut ++ below)
      else pure chunk

/-- The lines of a member block below `written`: the lines it owns unless the code collaborator
answers. -/
def memberLines (config : Config) (collaborators : Collaborators) (written : List Text)
    (region : Region) (owned : List Text) : Journaled (List Text) := do
  match ← collaborators.askCode (some (Int.ofNat (region.startLine + 1))) region.body with
  | none => pure owned
  | some output =>
      let separate :=
        config.blankLineBeforeCode &&
          (match written.getLast? with
            | some line => !Text.isBlankText line
            | none => false)
      let block := wrapMembers region.keyword.text config.codeIndentSize output
      pure ((if separate then [[]] else []) ++ Text.lines block)

/-- The lines of a document from line `start` on, below `written`. -/
def documentLines (config : Config) (collaborators : Collaborators) (source : List Text)
    (start : Nat) (written : List Text) : List Region → Journaled (List Text)
  | [] => do
      let markup ← markupLines config collaborators (decide (0 < start)) false (source.drop start)
      pure (written ++ markup)
  | region :: regions => do
      let markup ← markupLines config collaborators (decide (0 < start)) true
        ((source.drop start).take (region.startLine - start))
      let written := written ++ markup
      let members ← memberLines config collaborators written region
        ((source.drop region.startLine).take (region.endLine + 1 - region.startLine))
      documentLines config collaborators source (region.endLine + 1) (written ++ members) regions

end Pieces

/-- The layout of a document without a line feed at its end and with line feeds only. -/
def formatBody (config : Config) (collaborators : Collaborators) (text : Text) :
    Journaled Text := do
  let source := Text.lines text
  let regions := findRegions text
  modify fun journal => journal.log (.documentRead source.length regions.length)
  let lines ← documentLines config collaborators source 0 [] regions
  pure (Text.unlines lines)

/-- The layout of a document that has line feeds only. -/
def formatUnix (config : Config) (collaborators : Collaborators) (text : Text) :
    Journaled Text :=
  if text.getLast? = some '\n' then do
    let body ← formatBody config collaborators text.dropLast
    pure (body ++ ['\n'])
  else formatBody config collaborators text

/-- The layout of a document. -/
def formatDocument (config : Config) (collaborators : Collaborators) (text : Text) :
    Journaled Text :=
  if hasCrLf text then do
    let output ← formatUnix config collaborators (dropCr text)
    pure (addCr output)
  else formatUnix config collaborators text

/-- The text of a document's layout, with the default configuration and no collaborators. -/
def format (text : Text) : Text :=
  ((formatDocument .standard {} text).run {}).1

/-- A document laid out `passes` times over, with the text after each pass. -/
def formatPasses (config : Config) (collaborators : Collaborators) :
    Nat → Text → Journaled (List Text)
  | 0, _ => pure []
  | passes + 1, text => do
      let output ← formatDocument config collaborators text
      let rest ← formatPasses config collaborators passes output
      pure (output :: rest)

end RazorLayout
