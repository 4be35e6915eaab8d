import RazorLayout.Document.Format
import RazorLayout.Text.LineBreak
import RazorLayout.Tool.Clock
import RazorLayout.Tool.CommandLine
import RazorLayout.Tool.Ratio
import RazorLayout.Tool.Stress.Sample

/-!
# The stress test

Lays out many random templates and reports what went wrong.  For each template it checks that the
tokens make up the template, that the layout takes no longer than a few seconds and, when asked,
that a second layout changes nothing.
-/

namespace RazorLayout

namespace Stress

section Checking

/-- The complaint about tokens that do not make up the template. -/
def lostText : Text := "token round-trip lost text".toList

/-- The complaint about a layout that is not stable. -/
def unstable : Text := "second pass changed the output".toList

/-- What is wrong with the layout of a template, if anything is. -/
def problem? (twice : Bool) (text : Text) : Option Text :=
  if joinRaw (tokenize text) ≠ text then some lostText
  else
    let once := format text
    if twice && format once != once then some unstable else none

end Checking

/-- A template that failed the test. -/
structure Failure where
  kind : Text
  number : Int
  text : Text := []
  detail : Text
  deriving DecidableEq, Repr

namespace Failure

/-- The failure on one line, with the last line of its detail. -/
def summary (f : Failure) : Text :=
  '#' :: intText f.number ++ " [".toList ++ f.kind ++ "] ".toList ++ Text.lastLine f.detail

/-- The lines of the report about the failure. -/
def reportLines (f : Failure) : List Text :=
  [[], f.summary, "  input: ".toList ++ quoted (f.text.take 160)]

/-- The failure as it is saved. -/
def savedText (f : Failure) : Text :=
  "--- ".toList ++ f.kind ++ " #".toList ++ intText f.number ++ " ---\n".toList ++ f.text ++
    "\n--- detail ---\n".toList ++ f.detail ++ "\n\n".toList

end Failure

section Cases

/-- The kinds of failures, with the labels of their counts. -/
def kinds : List (Text × Text) :=
  [("crash".toList, "Crashes".toList), ("hang".toList, "Hangs".toList),
    ("mismatch".toList, "Mismatches".toList)]

/-- The number of seconds that a layout may take. -/
def patience : Nat := 5

/-- The failure of a template that took some time and has a problem, if it is one.  The clock has
`rate` ticks in a second. -/
def judge (rate number : Nat) (text : Text) (ticks : Nat) (problem : Option Text) :
    Option Failure :=
  if patience * rate < ticks then
    some ⟨"hang".toList, number, text, (Ratio.mk ticks rate).fixed 2 ++ ['s']⟩
  else
    problem.map fun detail => ⟨"mismatch".toList, number, text, detail⟩

/-- The state of a test run: the clock, the draws and what has been found. -/
structure TestRun where
  clock : Clock
  source : DrawSource
  failures : List Failure := []
  /-- The lines printed on the way. -/
  lines : List Text := []

/-- The line printed in front of every 250th template but the first. -/
def milestone (number failures : Nat) : List Text :=
  if number != 0 && number % 250 == 0 then
    ["  ".toList ++ natText number ++ " documents, ".toList ++ natText failures ++
      " failures".toList]
  else []

/-- Tests one template. -/
def testOne (verbose twice : Bool) (run : TestRun) (number : Nat) : TestRun :=
  let (text, source) := Sample.template.run run.source
  let (took, clock) := run.clock.measure
  let failure := judge clock.rate number text took (problem? twice text)
  { clock := clock
    source := source
    failures := run.failures ++ failure.toList
    lines := run.lines ++ (if verbose then milestone number run.failures.length else []) }

/-- Tests templates, numbered from zero. -/
def testAll (verbose twice : Bool) (count : Nat) (run : TestRun) : TestRun :=
  (List.range count).foldl (testOne verbose twice) run

end Cases

/-- What the stress test is asked to do. -/
structure Request where
  count : Int := 1000
  seed : Option Int := none
  twice : Bool := false
  verbose : Bool := false
  save : Bool := false
  /-- Only this many templates are to be shown. -/
  sample : Option Int := none
  deriving DecidableEq, Repr

/-- The reason to stop without an outcome: no time passed, so there is no rate. -/
inductive Failed where
  | noTimePassed
  deriving DecidableEq, Repr

section Arguments

/-- The options of the stress test. -/
def options : List OptionSpec :=
  [CommandLine.spec ["--num-tests", "-n"] .one, CommandLine.spec ["--seed", "-s"] .one,
    CommandLine.spec ["--idempotence"] .flag, CommandLine.spec ["--verbose", "-v"] .flag,
    CommandLine.spec ["--save-failures"] .flag, CommandLine.spec ["--sample"] .one]

/-- Takes one part of the command line into account. -/
def Request.add (r : Request) : Argument → Option Request
  | .operand _ => none
  | .option name values =>
      let number := Numeral.integer? (values.headD [])
      if name = "--num-tests".toList then number.map fun n => { r with count := n }
      else if name = "--seed".toList then number.map fun n => { r with seed := some n }
      else if name = "--sample".toList then number.map fun n => { r with sample := some n }
      else if name = "--idempotence".toList then some { r with twice := true }
      else if name = "--save-failures".toList then some { r with save := true }
      else some { r with verbose := true }

/-- The request that a command line makes. -/
def readRequest? (words : List Text) : Option Request := do
  let parts ← CommandLine.read? options words
  parts.foldlM Request.add {}

end Arguments

section Reports

/-- A seed in words. -/
def seedText : Option Int → Text
  | none => "None".toList
  | some seed => intText seed

/-- The source of draws after seeding. -/
def seeded (source : DrawSource) : Option Int → DrawSource
  | none => source
  | some seed => ⟨seed⟩

/-- The lines with the number of failures of each kind. -/
def countLines (failures : List Failure) : List Text :=
  kinds.map fun (kind, label) =>
    Text.padRight 12 (label ++ [':']) ++
      natText (failures.filter fun f => f.kind == kind).length

/-- The line at the top of the report. -/
def openingLine (r : Request) : Text :=
  "Fuzzing razorfmt: ".toList ++ intText r.count ++ " documents (seed=".toList ++
    seedText r.seed ++ [')']

/-- The lines of the report on a test run that took `total` ticks, `rate` of them a second. -/
def reportLines (r : Request) (rate total : Nat) (failures : List Failure) : List Text :=
  [[], "Documents:  ".toList ++ intText r.count,
    "Clean:      ".toList ++ intText (r.count - failures.length)] ++
  countLines failures ++
  ["Elapsed:    ".toList ++ (Ratio.mk total rate).fixed 2 ++ "s (".toList ++
    (Ratio.mk (r.count * rate) total).fixed 0 ++ " docs/s)".toList] ++
  (failures.take 10).flatMap Failure.reportLines ++
  (if failures.length ≤ 10 then []
    else [[], '(' :: natText (failures.length - 10) ++ " more not shown)".toList])

/-- The name of the file that failures are saved in. -/
def fileName (now : Int) : Text :=
  "fuzz_failures_".toList ++ intText now ++ ".txt".toList

/-- The file that failures are saved in. -/
def savedFile (r : Request) (failures : List Failure) : Text :=
  "seed: ".toList ++ seedText r.seed ++ "\n\n".toList ++ failures.flatMap Failure.savedText

/-- The outcome of a test run that printed `lines` on the way, took `total` ticks and found
failures. -/
def conclude (r : Request) (now : Int) (rate total : Nat) (lines : List Text)
    (failures : List Failure) : Except Failed Outcome :=
  if total = 0 then throw .noTimePassed
  else
    let saves := r.save && !failures.isEmpty
    let closing :=
      if saves then
        [[], "Wrote ".toList ++ natText failures.length ++ " failures to ".toList ++ fileName now]
      else []
    pure
      { exit := if failures.isEmpty then 0 else 1
        stdout := Outcome.printed
          (openingLine r :: lines ++ reportLines r rate total failures ++ closing)
        files := if saves then [(fileName now, savedFile r failures)] else [] }

/-- Runs the test. -/
def test (r : Request) (clock : Clock) (now : Int) (source : DrawSource) :
    Except Failed Outcome :=
  let (started, clock) := clock.read
  let run := testAll r.verbose r.twice r.count.toNat
    { clock := clock, source := seeded source r.seed }
  conclude r now clock.rate (run.clock.read.1 - started) run.lines run.failures

/-- Shows templates, numbered from one. -/
def showSamples (count : Nat) (source : DrawSource) : Outcome :=
  let (texts, _) := (Sampler.repeated Sample.template count).run source
  let lines := texts.zipIdx.flatMap fun (text, index) =>
    ["--- sample ".toList ++ natText (index + 1) ++ " ---".toList, text]
  ⟨0, Outcome.printed lines, none, []⟩

end Reports

/-- The number of templates that are only to be shown, if that is what the request is about. -/
def Request.shown? (r : Request) : Option Nat :=
  match r.sample with
  | none => none
  | some count => if count = 0 then none else some count.toNat

/-- Runs the stress test on a command line. -/
def run (clock : Clock) (now : Int) (source : DrawSource) (words : List Text) :
    Except Failed Outcome :=
  match readRequest? words with
  | none => pure .usageError
  | some r =>
      match r.shown? with
      | some count => pure (showSamples count (seeded source r.seed))
      | none => test r clock now source

end Stress

end RazorLayout
