import EntryFlow.Command
import EntryFlow.Digraph.Cycles

/-!
# The program

The command on the files of the system. Log lines go to the standard error output. A fault that the
command does not report by itself is written there too and ends the program with exit code 1.
-/

namespace EntryFlow.Program

/-- Computations on the files of the system, with the level of the log. -/
abbrev Live := StateT Level (ExceptT Fault IO)

/-- The number that the system gives a refusal. -/
def codeOf : IO.Error → Option UInt32
  | .noFileOrDirectory _ code _ => some code
  | .alreadyExists _ code _ => some code
  | .inappropriateType _ code _ => some code
  | .invalidArgument _ code _ => some code
  | .resourceExhausted _ code _ => some code
  | .otherError code _ => some code
  | _ => none

/-- Act on a path. A refusal for one of the known causes is a fault that names the path. -/
def acting {α : Type} (path : String) (act : IO α) : Live α := do
  match ← act.toBaseIO with
  | .ok a => return a
  | .error e =>
    match (codeOf e).bind fun code => FileCause.ofCode? code.toNat with
    | some cause => throw (.file cause path)
    | none => (throw e : IO α)

/-- The names below a directory. Links to directories are not followed, and a directory that cannot
be read counts as empty. -/
partial def treeBelow (path : String) : IO (FileTree Unit) := do
  let here ← IO.currentDir
  let entries ← try (here / path).readDir catch _ => pure #[]
  let trees ← entries.toList.mapM fun entry => do
    let below := path ++ "/" ++ entry.fileName
    match (← (here / below).symlinkMetadata).type with
    | .dir => return (entry.fileName, ← treeBelow below)
    | .symlink =>
      if ← (here / below).isDir then return (entry.fileName, .directory [])
      else return (entry.fileName, .file ())
    | _ => return (entry.fileName, .file ())
  return .directory trees

/-- The line of a record. -/
def lineOf (record : LogRecord) : String :=
  record.level.name ++ " - " ++ record.text ++ (record.fault?.map Fault.wording).getD ""

instance : Host Live where
  kind? path := do
    let place := (← IO.currentDir) / path
    if ← place.isDir then return some .directory
    else if ← place.pathExists then return some .file
    else return none
  read path := return (← acting path (IO.FS.readBinFile path)).toList
  write path bytes := acting path (IO.FS.writeBinFile path ⟨bytes.toArray⟩)
  makeDirectory path := acting path (IO.FS.createDir path)
  tree path := treeBelow path
  log record := do
    if (← get).rank ≤ record.level.rank then IO.eprintln (lineOf record)
  setLevel level := set level
  print text := IO.print text

/-- The surroundings of a program whose walks come one after the other. -/
def surroundings (named? : Option String) : Command.Surroundings where
  named?
  waits := .none
  queries := .byDisplay

/-- The result of the command: its exit code or a fault. -/
def result (texts : List String) : IO (Except Fault Nat) := do
  let named? ← IO.getEnv Settings.variableName
  ((Command.run (surroundings named?) texts : Live Nat).run' .info).run

end EntryFlow.Program

open EntryFlow in
/-- Run the command with the arguments of the program. -/
def main (texts : List String) : IO UInt32 := do
  match ← Program.result texts with
  | .ok code =>
    if code = 2 then IO.eprint Command.usage
    return code.toUInt32
  | .error fault =>
    IO.eprintln fault.wording
    return 1
