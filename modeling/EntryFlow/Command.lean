import EntryFlow.CallGraph
import EntryFlow.Command.Arguments
import EntryFlow.Corpus.File
import EntryFlow.Diagram.File
import EntryFlow.Java.Directory
import EntryFlow.Settings.File

/-!
# The command

Settings are read first, then the types: from a corpus file or from the sources below a directory.
The flows of all entry points are written as JSON, and on demand a diagram of each and the call
graph of all. Settings and types that cannot be read are reported and end the command with exit code
1; arguments that cannot be understood end it with exit code 2.

## Main definitions

* `Command.Surroundings`: what a run depends on besides its arguments and the host.
* `Command.run`.
-/

namespace EntryFlow.Command

open Arguments (given)

variable {m : Type → Type} [Monad m] [MonadExceptOf Fault m] [Host m]

/-- What a run depends on besides its arguments and the host. -/
structure Surroundings where
  /-- A variable that may name a file of settings. -/
  named? : Option String
  /-- What the waits for workers come to. -/
  waits : Waits
  /-- The library that is asked for cycles. -/
  queries : CycleQueries Datum

/-- How the command is used. -/
def usage : String :=
  "usage: entryflow [-h] [--types-json FILE] [--config FILE] [--output FILE] " ++
    "[--diagrams-dir DIR] [--graph FILE] [--workers N] [--log-level LEVEL] " ++
    "[--generate-config FILE] [SOURCE_DIR]\n"

/-- The faults in settings that the command reports. -/
def isSettingsFault : Fault → Bool
  | .configMissing _ | .file .noEntry _ | .malformedJson | .malformedUtf8 => true
  | .malformedNumber => true
  | .tooFewWorkers _ | .timeoutNotPositive _ | .unknownLogLevel _ => true
  | _ => false

/-- The faults in sources and corpora that the command reports. -/
def isCorpusFault : Fault → Bool
  | .sourceMissing _ | .file _ _ | .malformedJson | .malformedUtf8 => true
  | .corpusNotAList _ => true
  | _ => false

/-- A result, or nothing after the report of an expected fault. -/
def attempt {α : Type} (isExpected : Fault → Bool) (what : String) (act : m α) : m (Option α) :=
  tryCatch (some <$> act) fun fault =>
    if isExpected fault then do
      Host.log { level := .error, text := what, fault? := some fault }
      return none
    else throw fault

/-- The settings with those values that the arguments give. -/
def override (a : Arguments) (s : Settings) : Except Fault Settings :=
  if a.workers.isNone && (given a.logLevel).isNone then .ok s
  else
    let draft := s.draft
    Settings.Draft.check
      { draft with
        maxWorkers := (a.workers.map .int).getD draft.maxWorkers
        logLevel := ((given a.logLevel).map .text).getD draft.logLevel }

/-- The settings of a run. -/
def settings (a : Arguments) (named? : Option String) : m Settings := do
  let s ← match given a.config with
    | some path => do
      let s ← Settings.ofFile path
      Host.tell .info ("Loaded config from: " ++ path)
      pure s
    | none => Settings.ofEnvironment named?
  Host.ofResult (override a s)

/-- The types of a run. -/
def corpus (a : Arguments) (s : Settings) : m (List TypeRecord) :=
  match given a.typesJson with
  | some path => do
    let types ← Corpus.ofFile path
    Host.tell .info s!"Loaded {types.length} types from {path}"
    return types
  | none => Java.scan s (a.sourceDir.getD "")

/-- The result and the journal of an analysis, whose log goes to the host. -/
def analyze {α : Type} (analysis : Analysis α) : m (α × Journal) :=
  match analysis .empty with
  | .ok result journal => do
    journal.log.forM Host.log
    return (result, journal)
  | .error fault journal => do
    journal.log.forM Host.log
    throw fault

/-- The flows of some traces as a document. -/
def flowsDocument (traces : Table String Trace) : Datum :=
  .object (traces.map fun t => (t.1, .list (t.2.flow.map .text)))

/-- Write the flows to a file or to the output. -/
def writeFlows (a : Arguments) (traces : Table String Trace) : m Unit := do
  let text := Json.pretty (flowsDocument traces) ++ "\n"
  match given a.output with
  | some path =>
    Host.write path (Text.encode text)
    Host.tell .info s!"Wrote {traces.length} call flows to {path}"
  | none => Host.print text

/-- Write the call graph to a file. -/
def writeGraph (queries : CycleQueries Datum) (path : String) (traces : Table String Trace) :
    m Unit := do
  let g := CallGraph.ofTraces traces.values
  Host.write path (Text.encode (Json.pretty g.save))
  Host.tell .info (s!"Wrote call graph to {path}: {g.stats.nodes} nodes, " ++
    s!"{g.stats.edges} edges, {(g.findCycles queries).1.length} cycles")

/-- Trace the entry points and write what was asked for. -/
def report (around : Surroundings) (a : Arguments) (s : Settings) (types : List TypeRecord) :
    m Unit := do
  let (traces, journal) ← analyze (s.traceEntryPoints around.waits (some types))
  writeFlows a traces
  if let some directory := given a.diagramsDir then
    let _ ← Diagram.writeAll traces directory
  if let some path := given a.graph then
    writeGraph around.queries path traces
  let calls ← Host.ofResult journal.unresolvedCalls
  if !calls.isEmpty then
    Host.tell .info s!"{calls.length} distinct call expressions could not be resolved"

/-- Run with arguments that were understood. -/
def runWith (around : Surroundings) (a : Arguments) : m Nat := do
  match given a.generateConfig with
  | some path =>
    Settings.sample.toFile path
    Host.print ("Example config written to " ++ path ++ "\n")
    return 0
  | none =>
    match ← attempt isSettingsFault "Failed to load config: " (settings a around.named?) with
    | none => return 1
    | some s =>
      Host.setLevel s.logLevel
      match ← attempt isCorpusFault "Failed to load types: " (corpus a s) with
      | none => return 1
      | some types =>
        report around a s types
        return 0

/-- Run the command and give its exit code. -/
def run (around : Surroundings) (texts : List String) : m Nat :=
  if Arguments.asksHelp texts then do
    Host.print usage
    return 0
  else
    match Arguments.ofList? texts with
    | none => pure 2
    | some a => runWith around a

end EntryFlow.Command
