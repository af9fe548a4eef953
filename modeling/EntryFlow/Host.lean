import EntryFlow.FileTree
import EntryFlow.Log
import EntryFlow.Path

/-!
# What a command needs of its surroundings

Files, a log and an output are reached through the operations of `Host`, so that a command can run
against the real ones or against values in memory. A refusal is a fault that names the path as it
was given.

## Main definitions

* `Host`: the operations.
* `Host.makeDirectories`: a directory with the directories above it.
-/

namespace EntryFlow

/-- What a path leads to. -/
inductive FileKind where
  | file
  | directory
  deriving DecidableEq, Repr

/-- Operations on files, on a log and on an output. -/
class Host (m : Type → Type) where
  /-- What a path leads to, if it leads anywhere. -/
  kind? (path : String) : m (Option FileKind)
  /-- The bytes of a file. -/
  read (path : String) : m (List UInt8)
  /-- Write a file, in place of one that is there. -/
  write (path : String) (bytes : List UInt8) : m Unit
  /-- Make a directory where nothing is. -/
  makeDirectory (path : String) : m Unit
  /-- The names below a directory. -/
  tree (path : String) : m (FileTree Unit)
  /-- Write into the log, unless the record is below its level. -/
  log (record : LogRecord) : m Unit
  /-- Set the level of the log. -/
  setLevel (level : Level) : m Unit
  /-- Write to the output. -/
  print (text : String) : m Unit

namespace Host

variable {m : Type → Type} [Monad m] [MonadExceptOf Fault m] [Host m]

/-- Write a text into the log. -/
def tell (level : Level) (text : String) : m Unit :=
  log { level, text }

/-- A result, or a fault in its place. -/
def ofResult {α : Type} : Except Fault α → m α
  | .ok a => pure a
  | .error fault => throw fault

/-- Make a directory unless it is there already. -/
def ensureDirectory (path : String) : m Unit :=
  tryCatch (makeDirectory path) fun fault => do
    if (← kind? (m := m) path) ≠ some .directory then throw fault

/-- Make the directory of a path, given last name first, and those above it that are missing. -/
def makeDirectoriesFrom (root : String) : List String → m Unit
  | [] => ensureDirectory (Path.text ⟨root, []⟩)
  | name :: above =>
    let path := Path.text ⟨root, (name :: above).reverse⟩
    tryCatch (makeDirectory path) fun
      | .file .noEntry _ => do
        makeDirectoriesFrom root above
        ensureDirectory path
      | fault => do
        if (← kind? (m := m) path) ≠ some .directory then throw fault

/-- Make a directory and those above it that are missing. -/
def makeDirectories (path : Path) : m Unit :=
  makeDirectoriesFrom path.root path.names.reverse

end Host

end EntryFlow
