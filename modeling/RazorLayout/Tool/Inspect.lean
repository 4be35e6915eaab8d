import RazorLayout.Config.Options
import RazorLayout.Document.Format
import RazorLayout.Tool.CommandLine
import RazorLayout.Tool.FileTree

/-!
# The inspector

Shows how a template is cut into tokens and laid out: its first characters, every token with its
attributes and the structure of its block, whether the tokens make up the template, the layout, and
the warnings.
-/

namespace RazorLayout

namespace Inspect

/-- What the inspector is asked to do. -/
structure Request where
  path : PathName
  indentSize : Int := 4
  maxAttributes : Int := 1
  /-- Whether the layout is shown. -/
  withLayout : Bool := true
  deriving DecidableEq, Repr

/-- The reasons to stop without an outcome. -/
inductive Failure where
  | config (error : ConfigError)
  /-- The path names a directory. -/
  | isDirectory
  /-- The file is not well-formed text. -/
  | notText
  deriving DecidableEq, Repr

section Arguments

/-- The options of the inspector. -/
def options : List OptionSpec :=
  [CommandLine.spec ["--indent-size"] .one, CommandLine.spec ["--max-attributes"] .one,
    CommandLine.spec ["--no-format"] .flag, CommandLine.spec ["--verbose", "-v"] .flag]

/-- A request that may still lack its path. -/
structure Draft where
  path : Option PathName := none
  request : Request := { path := ⟨false, []⟩ }

/-- Takes one part of the command line into account. -/
def Draft.add (d : Draft) : Argument → Option Draft
  | .operand word =>
      match d.path with
      | none => some { d with path := some (.ofText word) }
      | some _ => none
  | .option name values =>
      if name = "--indent-size".toList then
        (Numeral.integer? (values.headD [])).map fun n =>
          { d with request := { d.request with indentSize := n } }
      else if name = "--max-attributes".toList then
        (Numeral.integer? (values.headD [])).map fun n =>
          { d with request := { d.request with maxAttributes := n } }
      else if name = "--no-format".toList then
        some { d with request := { d.request with withLayout := false } }
      else some d

/-- The request that a command line makes. -/
def readRequest? (words : List Text) : Option Request := do
  let parts ← CommandLine.read? options words
  let draft ← parts.foldlM Draft.add {}
  let path ← draft.path
  pure { draft.request with path := path }

end Arguments

section Report

/-- The margin of the details of a token. -/
def detail (cs : Text) : Text :=
  Text.spaces 9 ++ cs

/-- The structure of a block in words. -/
def blockDetail (raw : Text) : Text :=
  (((Block.read? raw).map Prod.fst).bind Block.describe?).getD "None".toList

/-- The lines about one token. -/
def tokenLines (index : Nat) (t : Token) : List Text :=
  ("  ".toList ++ Text.padLeft 4 (natText index) ++ ' ' :: t.describe) ::
    t.kind.attributes.map (fun a => detail a.describe) ++
    (if t.kind = .block then [detail (blockDetail t.raw)] else [])

/-- The lines about tokens, numbered from `index`. -/
def tokenListLines : Nat → List Token → List Text
  | _, [] => []
  | index, t :: ts => tokenLines index t ++ tokenListLines (index + 1) ts

/-- The lines about the tokens of a template. -/
def tokenReport (text : Text) : List Text :=
  let tokens := tokenize text
  ("=== Tokens (".toList ++ natText tokens.length ++ ") ===".toList) :: tokenListLines 0 tokens ++
    [[], if joinRaw tokens = text then "Token round-trip OK".toList
      else "!!! Token round-trip MISMATCH !!!".toList]

/-- The lines about the layout of a template. -/
def layoutReport (config : Config) (text : Text) : List Text :=
  let (output, journal) := (formatDocument config {} text).run {}
  [[], "=== Formatted ===".toList, output] ++
    (if journal.warnings.isEmpty then []
      else [] :: "=== Warnings ===".toList ::
        journal.warnings.map fun w => "  ".toList ++ w.text)

/-- The configuration of a request. -/
def Request.config (r : Request) : Except ConfigError Config :=
  Settings.create
      [(OptionKey.name .indentSize, .whole r.indentSize),
        (OptionKey.name .maxAttributesPerLine, .whole r.maxAttributes)]
    >>= Settings.toConfig

/-- The report on a template. -/
def report (r : Request) (text : Text) : Except Failure Outcome := do
  let tokens := ("Input: ".toList ++ quoted (text.take 200)) :: tokenReport text
  if r.withLayout then
    match r.config with
    | .error e => throw (.config e)
    | .ok config => pure ⟨0, Outcome.printed (tokens ++ layoutReport config text), none, []⟩
  else pure ⟨0, Outcome.printed tokens, none, []⟩

end Report

/-- What a path leads to. -/
inductive Source where
  /-- A text that was typed in. -/
  | input (text : Text)
  /-- A file. -/
  | file (octets : List Nat)
  | directory
  | missing
  deriving DecidableEq, Repr

namespace Request

/-- Whether the template is typed in. -/
def readsInput (r : Request) : Bool :=
  r.path.text == ['-']

/-- What the path of a request leads to. -/
def source (tree : FileTree) (input : Text) (r : Request) : Source :=
  if r.readsInput then .input input
  else
    match tree.read? r.path with
    | some octets => .file octets
    | none => if tree.isDirectory r.path then .directory else .missing

end Request

/-- The report on what a path leads to. -/
def reportOn (r : Request) : Source → Except Failure Outcome
  | .input text => report r text
  | .file octets =>
      match Utf8.decode? octets with
      | some text => report r (unifyLineEnds text)
      | none => throw .notText
  | .directory => throw .isDirectory
  | .missing => pure ⟨1, Outcome.printed ["File not found: ".toList ++ r.path.text], none, []⟩

/-- Runs the inspector on a command line. -/
def run (tree : FileTree) (input : Text) (words : List Text) : Except Failure Outcome :=
  match readRequest? words with
  | none => pure .usageError
  | some r => reportOn r (r.source tree input)

end Inspect

end RazorLayout
