import EntryFlow.Table

/-!
# File trees

A file tree is a file, or a directory with named entries. What files hold is left open: a disk has
trees of bytes, and a scan for sources looks at the names alone.

## Main definitions

* `FileTree`, `FileTree.at?`, `FileTree.put`.
* `FileTree.files`: the files below a tree with their paths.
* `FileTree.shape`: the tree without what its files hold.
-/

namespace EntryFlow

/-- A file or a directory. -/
inductive FileTree (α : Type) where
  | file (content : α)
  | directory (entries : List (String × FileTree α))

namespace FileTree

variable {α : Type}

/-- The entries of a directory; a file has none. -/
def entries : FileTree α → List (String × FileTree α)
  | file _ => []
  | directory entries => entries

/-- Whether the tree is a directory. -/
def isDirectory : FileTree α → Bool
  | file _ => false
  | directory _ => true

/-- The tree at the end of a path. -/
def at? (t : FileTree α) : List String → Option (FileTree α)
  | [] => some t
  | name :: names => (Table.find? t.entries name).bind (·.at? names)

/-- Put a tree at the end of a path, in place of what is there. Directories that are missing on the
way are made, but a file on the way is kept. -/
def put (x : FileTree α) : List String → FileTree α → FileTree α
  | [], _ => x
  | _ :: _, file content => file content
  | name :: names, directory entries =>
    directory (Table.set entries name
      (put x names ((Table.find? entries name).getD (directory []))))

mutual

/-- The files of a tree with their paths. -/
def files : FileTree α → List (List String × α)
  | file content => [([], content)]
  | directory entries => filesOf entries

/-- The files of some entries with their paths. -/
def filesOf : List (String × FileTree α) → List (List String × α)
  | [] => []
  | (name, t) :: rest => (files t).map (fun f => (name :: f.1, f.2)) ++ filesOf rest

end

mutual

/-- The tree without what its files hold. -/
def shape : FileTree α → FileTree Unit
  | file _ => file ()
  | directory entries => directory (shapeOf entries)

/-- Entries without what their files hold. -/
def shapeOf : List (String × FileTree α) → List (String × FileTree Unit)
  | [] => []
  | (name, t) :: rest => (name, shape t) :: shapeOf rest

end

end FileTree

end EntryFlow
