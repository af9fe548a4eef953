import EntryFlow.Text.Cut

/-!
# Paths

A path is a root and a list of names. Its text is normal: slashes are single, none is at the end,
and components `.` are left out, while `..` stays.

## Main definitions

* `Path.ofText`, `Path.text`.
* `Path.suffix`: the extension of the last name with its dot.
-/

namespace EntryFlow

/-- A path. The root is empty for a relative path; two slashes are a root of their own. -/
structure Path where
  root : String
  names : List String
  deriving DecidableEq, Repr

namespace Path

/-- The root that a text starts with. -/
def rootOf : List Char → String
  | '/' :: '/' :: '/' :: _ => "/"
  | '/' :: '/' :: _ => "//"
  | '/' :: _ => "/"
  | _ => ""

/-- The path that a text names. -/
def ofText (text : String) : Path where
  root := rootOf text.toList
  names := ((text.toList.splitOn '/').map String.ofList).filter fun name => name ≠ "" && name ≠ "."

/-- The normal text of a path. -/
def text (p : Path) : String :=
  if p.root.isEmpty && p.names.isEmpty then "." else p.root ++ "/".intercalate p.names

/-- The path of a name below a path. -/
def child (p : Path) (name : String) : Path :=
  { p with names := p.names ++ [name] }

/-- The last name, empty if there is none. -/
def name (p : Path) : String :=
  p.names.getLast?.getD ""

/-- The extension of a name from its last dot on. A dot at either end of the name begins none. -/
def suffixOf (name : String) : String :=
  match Text.splitAtLast '.' name.toList with
  | some (stem, extension) =>
    if stem.isEmpty || extension.isEmpty then "" else String.ofList ('.' :: extension)
  | none => ""

/-- The extension of the last name. -/
def suffix (p : Path) : String :=
  suffixOf p.name

end Path

end EntryFlow
