import RazorLayout.Vocabulary
import RazorLayout.Text.Quoted

/-!
# Blocks

A block is what a sigil introduces when it is neither an expression nor a line directive: a
comment, a code block, a member block, or a control-flow block with its clauses.  The bodies are
raw text; they are read again when they are laid out.

A control-flow block ends with any number of clauses and, for a loop whose test comes last, with
that test.
-/

namespace RazorLayout

/-- The head of a clause that follows the body of a block. -/
inductive ClauseHead where
  /-- An alternative with a condition. -/
  | elseIf (condition : Text)
  /-- The alternative without a condition. -/
  | otherwise
  /-- An exception handler. -/
  | handler (condition : Option Text)
  /-- The clause that always runs. -/
  | cleanup
  deriving DecidableEq, Repr

/-- A clause that follows the body of a block. -/
structure Clause where
  head : ClauseHead
  body : Text
  deriving DecidableEq, Repr

/-- A control-flow block. -/
structure Flow where
  keyword : Keyword
  /-- The name of a section. -/
  name : Option Text := none
  /-- What stands between the parentheses behind the keyword. -/
  condition : Option Text := none
  body : Text
  clauses : List Clause := []
  /-- What stands between the parentheses of the test behind a loop body. -/
  loopTest : Option Text := none
  deriving DecidableEq, Repr

/-- What a sigil introduces. -/
inductive Block where
  /-- A comment. -/
  | comment
  /-- Members of the page's class. -/
  | members (keyword : Keyword)
  /-- A code block without a keyword. -/
  | code (body : Text)
  /-- A control-flow block. -/
  | flow (flow : Flow)
  deriving DecidableEq, Repr

/-- A condition with its parentheses. -/
def parenthesised (condition : Text) : Text :=
  '(' :: condition ++ [')']

/-- A condition with its parentheses, a space in front. -/
def conditionText : Option Text → Text
  | none => []
  | some condition => ' ' :: parenthesised condition

namespace ClauseHead

/-- The head as it is printed. -/
def text : ClauseHead → Text
  | elseIf condition => elseIfWords ++ ' ' :: parenthesised condition
  | otherwise => elseWord
  | handler condition => catchWord ++ conditionText condition
  | cleanup => finallyWord

end ClauseHead

namespace Flow

/-- The head of a block as it is printed. -/
def header (f : Flow) : Text :=
  sigil :: f.keyword.text ++
    (match f.name with
      | none => []
      | some name => ' ' :: name) ++
    conditionText f.condition

/-- The test behind a loop body as it is printed. -/
def loopTestText (condition : Text) : Text :=
  whileWord ++ ' ' :: parenthesised condition

/-- The heads of everything that follows the body. -/
def chainHeads (f : Flow) : List Text :=
  (f.clauses.map fun clause => clause.head.text) ++
    (match f.loopTest with
      | none => []
      | some condition => [loopTestText condition])

end Flow

section Description

/-- A head that follows a body, as it is shown to the reader. -/
def describeChain (head : Text) : Text :=
  "Chain(".toList ++ quoted head ++ [')']

/-- A block with this header and these chains, as it is shown to the reader. -/
def describeFlow (header : Text) (chains : List Text) : Text :=
  "ParsedControlFlow(".toList ++ quoted header ++ ", chains=[".toList ++
    Text.joinWith ", ".toList chains ++ "])".toList

namespace Block

/-- The header of a block that has a structure. -/
def header? : Block → Option Text
  | comment => none
  | members _ => none
  | code _ => some [sigil]
  | flow f => some f.header

/-- The heads of everything that follows the body. -/
def chainHeads : Block → List Text
  | flow f => f.chainHeads
  | _ => []

/-- A block as it is shown to the reader, provided that it has a structure. -/
def describe? (b : Block) : Option Text :=
  b.header?.map fun header => describeFlow header b.chainHeads

end Block

end Description

end RazorLayout
