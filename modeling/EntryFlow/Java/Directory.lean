import EntryFlow.Host
import EntryFlow.Java.Source
import EntryFlow.Settings.Sources
import EntryFlow.Text.Utf8

/-!
# Directories of Java sources

The types of all sources below a directory. Bytes that are not UTF-8 are replaced, and a file whose
extension is asked for but not supported is left out with a warning.

## Main definitions

* `Java.scan`: the types below a directory.
-/

namespace EntryFlow.Java

/-- The types of the files read so far and their number. -/
structure Scan where
  types : List TypeRecord
  files : Nat

variable {m : Type → Type} [Monad m] [MonadExceptOf Fault m] [Host m]

/-- The path of a file below a root. -/
def fileBelow (root : Path) (below : String) : String :=
  if root.names.isEmpty && !root.root.isEmpty then root.text ++ below
  else root.text ++ "/" ++ below

/-- The text of a source. -/
def sourceText (bytes : List UInt8) : String :=
  String.ofList (Text.unifyLines (Text.decodeLossy bytes))

/-- Read one more file. -/
def scanFile (root : Path) (scan : Scan) (names : List String) : m Scan := do
  let below := Settings.pathText names
  let file := fileBelow root below
  match parse (some (sourceText (← Host.read file))) (some file) with
  | .ok types => return ⟨scan.types ++ types, scan.files + 1⟩
  | .error fault =>
    Host.log { level := .warning, text := "Skipping " ++ below ++ ": ", fault? := some fault }
    return scan

/-- The types of the sources below a directory. -/
def scan (s : Settings) (root : String) : m (List TypeRecord) := do
  let path := Path.ofText root
  if (← Host.kind? (m := m) path.text) ≠ some .directory then throw (.sourceMissing root)
  let sources ← Host.ofResult (s.sources (← Host.tree path.text))
  let found ← sources.foldlM (scanFile path) ⟨[], 0⟩
  Host.tell .info s!"Parsed {found.files} files from {root}: {found.types.length} types"
  return found.types

end EntryFlow.Java
