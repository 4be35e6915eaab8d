import RazorLayout.Block.Switch
import RazorLayout.Collaborator.Basic
import RazorLayout.Config.Basic
import RazorLayout.Text.Margin

/-!
# The layout of blocks

A block is laid out as its header, its body between braces on lines of their own, and its clauses
in the same form.  A body is markup again: it is moved to the left margin, laid out on its own by
the nested layout, and moved one level in.

Code without a keyword goes to the code collaborator first.  A switch body that can be cut into
sections is laid out section by section; nothing that follows the switch is then printed.

Where blocks are nested too deep there is no nested layout, and the block stays as it is.
-/

namespace RazorLayout

/-- What the layout of a piece of markup needs to know. -/
structure Context where
  config : Config
  collaborators : Collaborators
  /-- The layout of markup inside a block, unless blocks are nested too deep here. -/
  nested : Option (Text → Journaled Text)

namespace Context

section Bodies

/-- The lines of a body behind `lead`. -/
def bodyLines (format : Text → Journaled Text) (lead body : Text) : Journaled (List Text) :=
  let text := Text.dedent body
  if Text.isBlankText text then pure []
  else do
    let laidOut ← format text
    pure (Text.indent lead laidOut)

/-- The text in front of the statement that ends a section, when it does end with that statement. -/
def beforeBreak? (content : Text) : Option Text :=
  match content.reverse.dropWhile isBlank with
  | ';' :: rest =>
      match Text.after? "break".toList.reverse (rest.dropWhile isBlank) with
      | some [] => some []
      | some (c :: before) => if isBlank c then some before.reverse else none
      | none => none
  | _ => none

/-- The lines of a section of a switch.  The statement that ends it has a line of its own. -/
def sectionLines (format : Text → Journaled Text) (lead content : Text) :
    Journaled (List Text) :=
  match beforeBreak? content with
  | none => bodyLines format lead content
  | some before => do
      let lines ← bodyLines format lead before
      pure (lines ++ [lead ++ breakStatement])

/-- The lines of all sections of a switch, each behind its label. -/
def switchLines (format : Text → Journaled Text) (lead unit : Text) :
    List SwitchCase → Journaled (List Text)
  | [] => pure []
  | c :: cases => do
      let lines ← sectionLines format (lead ++ unit) c.content
      let rest ← switchLines format lead unit cases
      pure ((lead ++ c.label.text ++ [':']) :: lines ++ rest)

/-- The lines of clauses, each with its head and its braces. -/
def clauseLines (format : Text → Journaled Text) (indent unit : Text) :
    List Clause → Journaled (List Text)
  | [] => pure []
  | clause :: clauses => do
      let lines ← bodyLines format (indent ++ unit) clause.body
      let rest ← clauseLines format indent unit clauses
      pure ((indent ++ clause.head.text) :: (indent ++ ['{']) :: lines ++ [indent ++ ['}']] ++ rest)

/-- Puts the test of a loop behind the last closing brace. -/
def withLoopTest (indent : Text) (loopTest : Option Text) (lines : List Text) : List Text :=
  match loopTest with
  | none => lines
  | some condition =>
      lines.dropLast ++ [indent ++ "\x7d ".toList ++ Flow.loopTestText condition ++ [';']]

end Bodies

section Blocks

/-- The lines of a code block. -/
def codeLines (ctx : Context) (format : Text → Journaled Text) (indent body : Text) :
    Journaled (List Text) := do
  let lead := indent ++ ctx.config.unit
  let lines ←
    match ← ctx.collaborators.askCode none body with
    | some output => pure (Text.reindent lead output)
    | none => bodyLines format lead body
  pure ((indent ++ "@\x7b".toList) :: lines ++ [indent ++ ['}']])

/-- The lines of a control-flow block with its clauses. -/
def plainFlowLines (ctx : Context) (format : Text → Journaled Text) (indent : Text) (f : Flow) :
    Journaled (List Text) := do
  let body ← bodyLines format (indent ++ ctx.config.unit) f.body
  let clauses ← clauseLines format indent ctx.config.unit f.clauses
  pure (withLoopTest indent f.loopTest
    ((indent ++ f.header) :: (indent ++ ['{']) :: body ++ [indent ++ ['}']] ++ clauses))

/-- The sections of a block, when it is a switch that can be cut into them. -/
def sections? (f : Flow) : Option (List SwitchCase) :=
  if f.keyword = .switchBlock then SwitchCase.readAll? f.body else none

/-- The lines of a control-flow block. -/
def flowLines (ctx : Context) (format : Text → Journaled Text) (indent : Text) (f : Flow) :
    Journaled (List Text) :=
  match sections? f with
  | some cases => do
      let lines ← switchLines format (indent ++ ctx.config.unit) ctx.config.unit cases
      pure ((indent ++ f.header) :: (indent ++ ['{']) :: lines ++ [indent ++ ['}']])
  | none => ctx.plainFlowLines format indent f

/-- The line of a block that stays as it is. -/
def rawLines (indent raw : Text) : List Text :=
  [indent ++ Text.strip raw]

/-- The lines of a block. -/
def blockLines (ctx : Context) (indent raw : Text) : Journaled (List Text) :=
  match ctx.nested with
  | none => fun journal =>
      (rawLines indent raw,
        (journal.log (.tooDeep ctx.config.maxDepth)).warn (.tooDeep ctx.config.maxDepth))
  | some format =>
      match Block.read? raw with
      | some (.code body, _) => ctx.codeLines format indent body
      | some (.flow f, _) => ctx.flowLines format indent f
      | _ => pure (rawLines indent raw)

end Blocks

end Context

end RazorLayout
