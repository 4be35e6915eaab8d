import RazorLayout.Config.Options
import RazorLayout.Document.Format
import RazorLayout.Tool.Clock
import RazorLayout.Tool.CommandLine
import RazorLayout.Tool.Ratio
import RazorLayout.Tool.Timing.Templates
import RazorLayout.Total

/-!
# The timing tool

Times the stages of the layout over a set of templates and prints a table.

A stage never fails on a template, so a measurement consists of the time that each run took.
-/

namespace RazorLayout

namespace Timing

/-- What is timed. -/
inductive Stage where
  | tokenize
  | markup
  | document
  deriving DecidableEq, Repr

namespace Stage

/-- The name of a stage. -/
def name : Stage → Text
  | tokenize => "tokenize".toList
  | markup => "markup".toList
  | document => "document".toList

/-- Every stage, in the order in which they are timed. -/
def all : List Stage := [tokenize, markup, document]

/-- The stage of a name. -/
def ofName? (cs : Text) : Option Stage :=
  all.find? fun stage => stage.name == cs

/-- What a stage makes of a template. -/
def output (stage : Stage) (config : Config) (text : Text) : Text :=
  match stage with
  | tokenize => joinRaw (RazorLayout.tokenize text)
  | markup => ((formatMarkup config {} 0 text).run {}).1
  | document => ((formatDocument config {} text).run {}).1

end Stage

section Measuring

/-- The times of the runs of a stage, in ticks of a clock with `rate` ticks in a second. -/
structure Timings where
  rate : Nat
  elapsed : List Nat
  deriving DecidableEq, Repr

namespace Timings

/-- The time of all runs together. -/
def total (t : Timings) : Nat := RazorLayout.total t.elapsed

/-- The longest time of a run. -/
def worst (t : Timings) : Nat := t.elapsed.foldl max 0

/-- The number of runs. -/
def runs (t : Timings) : Nat := t.elapsed.length

/-- The mean time of a run in seconds. -/
def mean (t : Timings) : Ratio :=
  if t.runs = 0 then .zero else ⟨t.total, t.rate * t.runs⟩

end Timings

/-- The times of a number of runs. -/
def timeRuns : Nat → Clock → List Nat × Clock
  | 0, clock => ([], clock)
  | n + 1, clock =>
      let (elapsed, clock) := clock.measure
      let (rest, clock) := timeRuns n clock
      (elapsed :: rest, clock)

/-- Times a stage on every template, several times over. -/
def timeStage (templates : List Template) (iterations : Int) (clock : Clock) : Timings × Clock :=
  let (elapsed, clock) := timeRuns (iterations.toNat * templates.length) clock
  (⟨clock.rate, elapsed⟩, clock)

/-- The reasons why a stage cannot be timed. -/
inductive StageError where
  | config (error : ConfigError)
  | unknownStage (name : Text)
  deriving DecidableEq, Repr

namespace StageError

/-- The error in words. -/
def text : StageError → Text
  | config error => "ValueError: ".toList ++ error.message.getD []
  | unknownStage name => "KeyError: ".toList ++ quoted name

end StageError

/-- The configuration for an indentation. -/
def configFor (indentSize : Int) : Except ConfigError Config :=
  Settings.create [(OptionKey.name .indentSize, .whole indentSize)] >>= Settings.toConfig

/-- Times a stage that is given by name, with an indentation that may be no good.  A bad indentation
is noticed before a bad name. -/
def timeNamed (stage : Text) (templates : List Template) (iterations indentSize : Int)
    (clock : Clock) : Except StageError Timings :=
  match configFor indentSize with
  | .error e => throw (.config e)
  | .ok _ =>
      match Stage.ofName? stage with
      | none => throw (.unknownStage stage)
      | some _ => pure (timeStage templates iterations clock).1

end Measuring

section Memory

/-- What has been seen of the memory of a process. -/
structure MemoryTrace where
  first : Option Nat := none
  peak : Nat := 0
  samples : Nat := 0
  deriving DecidableEq, Repr

namespace MemoryTrace

/-- Takes one reading into account; a failed one is none. -/
def add (m : MemoryTrace) : Option Nat → MemoryTrace
  | none => m
  | some reading => ⟨some (m.first.getD reading), max m.peak reading, m.samples + 1⟩

/-- What readings show. -/
def ofReadings (readings : List (Option Nat)) : MemoryTrace :=
  readings.foldl add {}

/-- How much the memory grew above its first reading.  A first reading of nothing is no reading. -/
def growth (m : MemoryTrace) : Nat :=
  match m.first with
  | none => 0
  | some 0 => 0
  | some first => m.peak - first

end MemoryTrace

end Memory

section Table

/-- A row of the table: times in seconds, memory in megabytes. -/
structure Measurement where
  total : Ratio
  mean : Ratio
  worst : Ratio
  failures : List (Text × Text) := []
  /-- The peak and the growth of the memory. -/
  memory : Option (Ratio × Ratio) := none
  deriving DecidableEq, Repr

/-- The outcome of a stage. -/
inductive StageOutcome where
  | crashed (reason : Text)
  | measured (m : Measurement)
  deriving DecidableEq, Repr

/-- The row of timings. -/
def Timings.measurement (t : Timings) : Measurement where
  total := ⟨t.total, t.rate⟩
  mean := t.mean
  worst := ⟨t.worst, t.rate⟩

/-- The outcomes of stages by name, in the order in which the names first came up. -/
abbrev Outcomes := List (Text × StageOutcome)

/-- Enters an outcome, in place of an earlier one of the same name. -/
def Outcomes.put (name : Text) (outcome : StageOutcome) : Outcomes → Outcomes
  | [] => [(name, outcome)]
  | (other, old) :: rest =>
      if other = name then (name, outcome) :: rest
      else (other, old) :: Outcomes.put name outcome rest

/-- The outcomes that are entered one after the other. -/
def Outcomes.ofList (entries : List (Text × StageOutcome)) : Outcomes :=
  entries.foldl (fun outcomes entry => outcomes.put entry.1 entry.2) []

/-- A line of the table. -/
def ruler (c : Char) : Text := List.replicate 78 c

/-- The head of the table. -/
def headLine : Text :=
  Text.padRight 12 "stage".toList ++ Text.padLeft 10 "total s".toList ++
    Text.padLeft 10 "mean ms".toList ++ Text.padLeft 10 "worst ms".toList ++
    Text.padLeft 10 "peak MB".toList ++ Text.padLeft 10 "grew MB".toList ++
    Text.padLeft 8 "failed".toList

/-- The memory columns. -/
def memoryCells : Option (Ratio × Ratio) → Text
  | none => Text.padLeft 10 ['-'] ++ Text.padLeft 10 ['-']
  | some (peak, growth) => Text.padLeft 10 (peak.fixed 1) ++ Text.padLeft 10 (growth.fixed 1)

/-- The row of a stage. -/
def row (name : Text) : StageOutcome → Text
  | .crashed reason => Text.padRight 12 name ++ "crashed: ".toList ++ reason
  | .measured m =>
      Text.padRight 12 name ++ Text.padLeft 10 (m.total.fixed 3) ++
        Text.padLeft 10 ((m.mean.scale 1000).fixed 3) ++
        Text.padLeft 10 ((m.worst.scale 1000).fixed 3) ++ memoryCells m.memory ++
        Text.padLeft 8 (natText m.failures.length)

/-- The failures of a stage. -/
def failureLines (name : Text) : StageOutcome → List Text
  | .crashed _ => []
  | .measured m =>
      m.failures.map fun (template, message) =>
        name ++ ": ".toList ++ template ++ ": ".toList ++ message

/-- The table of outcomes. -/
def tableLines (outcomes : Outcomes) (templates : Int) (iterations : Int) : List Text :=
  [[], ruler '=',
    "razorfmt: ".toList ++ intText templates ++ " templates, ".toList ++ intText iterations ++
      " iteration(s) each".toList,
    ruler '=', headLine, ruler '-'] ++
  outcomes.map (fun (name, outcome) => row name outcome) ++ [ruler '='] ++
  outcomes.flatMap fun (name, outcome) => failureLines name outcome

end Table

/-- Where templates come from. -/
inductive Origin where
  | directory (path : PathName)
  | archive (path : PathName)
  deriving DecidableEq, Repr

/-- What the timing tool is asked to do. -/
structure Request where
  origin : Option Origin := none
  limit : Int := 100
  iterations : Int := 5
  stages : List Stage := Stage.all
  indentSize : Int := 4
  deriving DecidableEq, Repr

section Arguments

/-- The options of the timing tool. -/
def options : List OptionSpec :=
  [CommandLine.spec ["--dir"] .one, CommandLine.spec ["--archive"] .one,
    CommandLine.spec ["--limit"] .one, CommandLine.spec ["--iterations"] .one,
    CommandLine.spec ["--stages"] .many, CommandLine.spec ["--indent-size"] .one,
    CommandLine.spec ["--no-mem"] .flag, CommandLine.spec ["--mem-sample-ms"] .one]

/-- Sets the origin; a directory and an archive exclude each other. -/
def Request.setOrigin (r : Request) (origin : Origin) : Option Request :=
  match r.origin, origin with
  | some (.directory _), .archive _ => none
  | some (.archive _), .directory _ => none
  | _, _ => some { r with origin := some origin }

/-- Takes one part of the command line into account. -/
def Request.add (r : Request) : Argument → Option Request
  | .operand _ => none
  | .option name values =>
      let value := values.headD []
      let number := Numeral.integer? value
      if name = "--dir".toList then r.setOrigin (.directory (.ofText value))
      else if name = "--archive".toList then r.setOrigin (.archive (.ofText value))
      else if name = "--limit".toList then number.map fun n => { r with limit := n }
      else if name = "--iterations".toList then number.map fun n => { r with iterations := n }
      else if name = "--stages".toList then
        (values.mapM Stage.ofName?).map fun stages => { r with stages := stages }
      else if name = "--indent-size".toList then number.map fun n => { r with indentSize := n }
      else if name = "--mem-sample-ms".toList then
        if Numeral.isDecimal value then some r else none
      else some r

/-- The request that a command line makes, and the origin of its templates. -/
def readRequest? (words : List Text) : Option (Request × Origin) := do
  let parts ← CommandLine.read? options words
  let request ← parts.foldlM Request.add {}
  let origin ← request.origin
  pure (request, origin)

end Arguments

section Running

/-- The templates of an origin. -/
def Origin.load (w : Workspace) (limit : Int) : Origin → Except Text (List Template)
  | directory path => Template.fromDirectory w path limit
  | archive path => Template.fromArchive w path limit

/-- The number of bytes in a megabyte. -/
def megabyte : Nat := 1024 * 1024

/-- The line about the templates that were found. -/
def loadedLine (templates : List Template) : Text :=
  let size := total (templates.map fun t => t.text.length)
  "Loaded ".toList ++ natText templates.length ++ " templates (".toList ++
    (Ratio.mk size megabyte).fixed 2 ++ " MB)".toList

/-- Times stages one after the other by one clock. -/
def timeStages (templates : List Template) (iterations : Int) :
    List Stage → Clock → List (Text × StageOutcome)
  | [], _ => []
  | stage :: stages, clock =>
      let (timings, clock) := timeStage templates iterations clock
      (stage.name, .measured timings.measurement) :: timeStages templates iterations stages clock

/-- Gives up with a message. -/
def giveUp (message : Text) : Outcome := ⟨1, [], some message, []⟩

/-- The report on the outcomes of a request. -/
def report (r : Request) (templates : List Template) (outcomes : Outcomes) : Outcome where
  exit := 0
  stdout := Outcome.printed
    (loadedLine templates :: r.stages.map (fun s => "  ".toList ++ s.name ++ "...".toList) ++
      tableLines outcomes templates.length r.iterations)

/-- Runs the timing tool on a command line. -/
def run (w : Workspace) (clock : Clock) (words : List Text) : Except ConfigError Outcome :=
  match readRequest? words with
  | none => pure .usageError
  | some (r, origin) =>
      match origin.load w r.limit with
      | .error message => pure (giveUp message)
      | .ok [] => pure (giveUp "ERROR: no templates found".toList)
      | .ok templates => do
          let _ ← configFor r.indentSize
          pure (report r templates (.ofList (timeStages templates r.iterations r.stages clock)))

end Running

end Timing

end RazorLayout
