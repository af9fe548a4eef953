import EntryFlow.FileTree
import EntryFlow.Path
import EntryFlow.Settings

/-!
# Sources below a directory

The files that a scan reads: those that have one of the extensions and are not ignored, top down.
The files of a directory come first, then those of its directories, each in the order of their
names. An ignored directory is left out with all that is in it.

## Main definitions

* `Settings.sources`.
-/

namespace EntryFlow.Settings

variable {α : Type}

/-- The text of a path below the root. -/
def pathText (names : List String) : String :=
  "/".intercalate names

/-- Whether a file is read, given the directory that it is in. -/
def isSource (s : Settings) (below : List String) (name : String) : Except Fault Bool :=
  if Path.suffixOf name ∈ s.extensions then (s.ignores (pathText (below ++ [name]))).map not
  else .ok false

/-- Entries in the order of their names. -/
def byName {β : Type} (entries : List (String × β)) : List (String × β) :=
  entries.mergeSort fun a b => decide (a.1 ≤ b.1)

/-- The files of a directory that are read. -/
def sourceNames (s : Settings) (below : List String) (entries : List (String × FileTree α)) :
    Except Fault (List String) :=
  ((byName (entries.filter fun e => !e.2.isDirectory)).map Prod.fst).filterM (s.isSource below)

mutual

/-- The sources below a tree that is found at a path. -/
def sourcesFrom (s : Settings) (below : List String) :
    FileTree α → Except Fault (List (List String))
  | .file _ => .ok []
  | .directory entries => do
    let nested ← s.nestedSources below entries
    let names ← s.sourceNames below entries
    return names.map (fun name => below ++ [name]) ++ (byName nested).flatMap Prod.snd

/-- The sources below the directories among some entries, by the name of the directory. -/
def nestedSources (s : Settings) (below : List String) :
    List (String × FileTree α) → Except Fault (List (String × List (List String)))
  | [] => .ok []
  | (name, t) :: rest => do
    let others ← s.nestedSources below rest
    if t.isDirectory then
      if ← s.ignores (pathText (below ++ [name])) then return others
      else return (name, ← s.sourcesFrom (below ++ [name]) t) :: others
    else return others

end

/-- The paths of the sources below a root. -/
def sources (s : Settings) (root : FileTree α) : Except Fault (List (List String)) :=
  s.sourcesFrom [] root

end EntryFlow.Settings
