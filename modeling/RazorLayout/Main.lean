import Std.Time.DateTime.Timestamp
import RazorLayout.Tool.Inspect
import RazorLayout.Tool.Stress.Report
import RazorLayout.Tool.Timing.Report

/-!
# The command line

One program with three tools, named by the first word: `inspect`, `stress` and `timing`.  Here are
only the readings of files and clocks and the printing; what a tool says is decided by the tool.

There is no reader of archives, so no archive is ever found.
-/

namespace RazorLayout

namespace Terminal

/-- The number of ticks in a second of the clock of the machine. -/
def rate : Nat := 1000000000

/-- Prints what a tool leaves behind, writes its files and gives its exit code. -/
def finish (outcome : Outcome) : IO UInt32 := do
  IO.print (String.ofList outcome.stdout)
  for (name, text) in outcome.files do
    IO.FS.writeFile (String.ofList name) (String.ofList text)
  match outcome.exitMessage with
  | some message => IO.eprintln (String.ofList message)
  | none => pure ()
  pure (UInt32.ofNat outcome.exit)

/-- Stops with a message. -/
def stop (message : Text) : IO UInt32 :=
  finish ⟨1, [], some message, []⟩

/-- What is said about a configuration that is refused. -/
def refusal (error : ConfigError) : Text :=
  error.message.getD "the configuration has a value of the wrong kind".toList

/-- The octets of a file. -/
def octets (bytes : ByteArray) : List Nat :=
  bytes.toList.map UInt8.toNat

/-- Computes a value now, between the actions in front and behind. -/
@[noinline] def computed {α : Type} (value : Unit → α) : IO α :=
  pure (value ())

/-- A value and the number of ticks that its computation takes. -/
def timed {α : Type} (value : Unit → α) : IO (α × Nat) := do
  let started ← IO.monoNanosNow
  let result ← computed value
  let stopped ← IO.monoNanosNow
  pure (result, stopped - started)

end Terminal

namespace Inspect

/-- What a path of the file system leads to. -/
def Request.fetch (r : Request) : IO Source := do
  if r.readsInput then
    let bytes ← (← IO.getStdin).readBinToEnd
    pure (.input (unifyLineEnds (Utf8.decode (Terminal.octets bytes))))
  else
    try
      let bytes ← IO.FS.readBinFile (String.ofList r.path.text)
      pure (.file (Terminal.octets bytes))
    catch
      | .noFileOrDirectory .. => pure .missing
      | .inappropriateType .. => pure .directory
      | e => throw e

/-- The inspector. -/
def command (words : List Text) : IO UInt32 := do
  match readRequest? words with
  | none => Terminal.finish .usageError
  | some r =>
      match reportOn r (← r.fetch) with
      | .ok outcome => Terminal.finish outcome
      | .error .isDirectory => Terminal.stop ("Is a directory: ".toList ++ r.path.text)
      | .error .notText => Terminal.stop ("Not well-formed text: ".toList ++ r.path.text)
      | .error (.config e) => Terminal.stop (Terminal.refusal e)

end Inspect

namespace Stress

/-- Runs a test by the clock of the machine. -/
def testByClock (r : Request) (source : DrawSource) : IO (Except Failed Outcome) := do
  let started ← IO.monoNanosNow
  let mut source := source
  let mut failures : Array Failure := #[]
  let mut lines : Array Text := #[]
  for number in [0:r.count.toNat] do
    if r.verbose then
      lines := lines ++ milestone number failures.size
    let (text, after) := Sample.template.run source
    source := after
    let (problem, took) ← Terminal.timed fun _ => problem? r.twice text
    failures := failures ++ (judge Terminal.rate number text took problem).toList
  let total := (← IO.monoNanosNow) - started
  let now := (← Std.Time.Timestamp.now).toSecondsSinceUnixEpoch
  pure (conclude r now.val Terminal.rate total lines.toList failures.toList)

/-- The stress test. -/
def command (words : List Text) : IO UInt32 := do
  match readRequest? words with
  | none => Terminal.finish .usageError
  | some r =>
      let source := seeded ⟨(← IO.monoNanosNow)⟩ r.seed
      match r.shown? with
      | some count => Terminal.finish (showSamples count source)
      | none =>
          match ← testByClock r source with
          | .ok outcome => Terminal.finish outcome
          | .error .noTimePassed => Terminal.stop "no time passed".toList

end Stress

namespace Timing

/-- The templates of an origin.  The files below a directory make up a tree of their own. -/
def Origin.fetch (limit : Int) : Origin → IO (Except Text (List Template))
  | directory path => do
      let place := (← IO.currentDir) / String.ofList path.text
      if ← place.isDir then
        let mut tree : FileTree := {}
        for found in ← place.walkDir do
          let parts := (found.components.drop place.components.length).map String.toList
          if Template.isTemplateFile ⟨parts, []⟩ && !(← found.isDir) then
            tree := tree.write ⟨parts, Terminal.octets (← IO.FS.readBinFile found)⟩
        pure (Template.fromDirectory { tree := tree } ⟨false, []⟩ limit)
      else pure (throw (Template.notDirectory path))
  | archive path => pure (Template.fromArchive {} path limit)

/-- Times stages by the clock of the machine. -/
def timeByClock (r : Request) (config : Config) (templates : List Template) : IO Outcomes := do
  let mut entries : Array (Text × StageOutcome) := #[]
  for stage in r.stages do
    let mut elapsed : Array Nat := #[]
    for _ in [0:r.iterations.toNat] do
      for template in templates do
        let (_, took) ← Terminal.timed fun _ => stage.output config template.text
        elapsed := elapsed.push took
    let timings : Timings := ⟨Terminal.rate, elapsed.toList⟩
    entries := entries.push (stage.name, .measured timings.measurement)
  pure (.ofList entries.toList)

/-- The timing tool. -/
def command (words : List Text) : IO UInt32 := do
  match readRequest? words with
  | none => Terminal.finish .usageError
  | some (r, origin) =>
      match ← origin.fetch r.limit with
      | .error message => Terminal.finish (giveUp message)
      | .ok [] => Terminal.finish (giveUp "ERROR: no templates found".toList)
      | .ok templates =>
          match configFor r.indentSize with
          | .error e => Terminal.stop (Terminal.refusal e)
          | .ok config =>
              Terminal.finish (report r templates (← timeByClock r config templates))

end Timing

end RazorLayout

/-- Runs the tool that the first word names. -/
def main (args : List String) : IO UInt32 := do
  let words := args.map String.toList
  match args with
  | "inspect" :: _ => RazorLayout.Inspect.command (words.drop 1)
  | "stress" :: _ => RazorLayout.Stress.command (words.drop 1)
  | "timing" :: _ => RazorLayout.Timing.command (words.drop 1)
  | _ =>
      IO.eprintln "usage: razor-layout (inspect | stress | timing) ..."
      RazorLayout.Terminal.finish .usageError
