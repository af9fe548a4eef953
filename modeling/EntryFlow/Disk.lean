import EntryFlow.Fault
import EntryFlow.FileTree

/-!
# Disks

A disk is a tree of files that hold bytes, seen from its root directory. Paths are followed step by
step, so that `..` behind a name needs that name to be a directory. Nothing lies above the root, and
no absolute path leads anywhere. Names and paths are limited in length.

## Main definitions

* `Disk.locate`: the place that a path leads to.
* `Disk.read`, `Disk.write`, `Disk.makeDirectory`.
-/

namespace EntryFlow

/-- A tree of files that hold bytes. -/
abbrev Disk := FileTree (List UInt8)

namespace Disk

/-- The disk without files. -/
def empty : Disk := .directory []

/-- The most bytes of a name. -/
def maxName : Nat := 255

/-- The most bytes of a path. -/
def maxPath : Nat := 4095

/-- One step from a place, given by the names that lead to it. -/
def step (disk : Disk) (place : List String) (name : String) :
    Except FileCause (List String) :=
  match disk.at? place with
  | none => .error .noEntry
  | some (.file _) => .error .notDirectory
  | some (.directory entries) =>
    if name = "" || name = "." then .ok place
    else if name = ".." then .ok place.dropLast
    else if maxName < name.utf8ByteSize then .error .nameTooLong
    else if Table.has entries name then .ok (place ++ [name])
    else .error .noEntry

/-- The parts of a path between slashes. -/
def partsOf (path : String) : List String :=
  (path.toList.splitOn '/').map String.ofList

/-- The steps of a relative path, which is not empty. -/
def steps (path : String) : Except FileCause (List String) :=
  if maxPath < path.utf8ByteSize then .error .nameTooLong
  else if path.isEmpty || "/".toList.isPrefixOf path.toList then .error .noEntry
  else .ok (partsOf path)

/-- The place that a path leads to. -/
def locate (disk : Disk) (path : String) : Except FileCause (List String) := do
  (← steps path).foldlM disk.step []

/-- The tree that a path leads to. -/
def lookup (disk : Disk) (path : String) : Except FileCause Disk := do
  match disk.at? (← disk.locate path) with
  | some t => return t
  | none => throw .noEntry

/-- The bytes of a file. -/
def read (disk : Disk) (path : String) : Except FileCause (List UInt8) := do
  match ← disk.lookup path with
  | .file bytes => return bytes
  | .directory _ => throw .isDirectory

/-- Whether a path ends in a slash, so that it names a directory. -/
def namesDirectory (path : String) : Bool :=
  path.toList.getLast? = some '/'

/-- The directory in which the last name of a path is to be found, and that name. Slashes at the end
do not count. -/
def parent (disk : Disk) (path : String) :
    Except FileCause (List String × List (String × Disk) × String) := do
  let names := (← steps path).reverse.dropWhile (·.isEmpty) |>.reverse
  let name := names.getLast?.getD ""
  let place ← names.dropLast.foldlM disk.step []
  match disk.at? place with
  | some (.directory entries) =>
    if maxName < name.utf8ByteSize then throw .nameTooLong
    return (place, entries, name)
  | _ => throw .notDirectory

/-- Whether a part of a path stands for a directory by itself. -/
def isDots (name : String) : Bool :=
  name = "" || name = "." || name = ".."

/-- Write a file, in place of one that is there. -/
def write (disk : Disk) (path : String) (bytes : List UInt8) : Except FileCause Disk := do
  let (place, entries, name) ← disk.parent path
  if namesDirectory path || isDots name then throw .isDirectory
  match Table.find? entries name with
  | some (.directory _) => throw .isDirectory
  | _ => return FileTree.put (.file bytes) (place ++ [name]) disk

/-- Make a directory where nothing is. -/
def makeDirectory (disk : Disk) (path : String) : Except FileCause Disk := do
  let (place, entries, name) ← disk.parent path
  if isDots name || Table.has entries name then throw .occupied
  return FileTree.put (.directory []) (place ++ [name]) disk

end Disk

end EntryFlow
