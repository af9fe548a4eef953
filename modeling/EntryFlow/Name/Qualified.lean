import EntryFlow.Text.Blank
import EntryFlow.Text.Cut

/-!
# Dotted names and declared types

The parts of fully qualified names, and the raw name behind a declared type such as
`final Optional<User>[]`.
-/

namespace EntryFlow.Name

open Text

/-- The part of a dotted name after its last dot. -/
def simple (qualified : String) : String :=
  String.ofList (afterLast '.' qualified.toList)

/-- Split `pkg.Type.method` into `pkg.Type` and `method`; the owner is empty without a dot. -/
def ownerAndMember (qualified : String) : String × String :=
  match splitAtLast '.' qualified.toList with
  | some (owner, member) => (String.ofList owner, String.ofList member)
  | none => ("", qualified)

/-- The raw name of a declared type: type arguments, array suffixes, the ellipsis of a variable
parameter and leading modifiers or annotations are dropped. -/
def raw (declared : String) : String :=
  let head := (trim declared.toList).takeWhile (· ≠ '<')
  let name := trim (remove "...".toList (remove "[]".toList head))
  String.ofList (if ' ' ∈ name then (words name).getLast?.getD [] else name)

/-- The simple name of a type as it stands in an `extends` or `implements` clause. -/
def base (supertype : String) : String :=
  String.ofList (afterLast '.' (trim (supertype.toList.takeWhile (· ≠ '<'))))

end EntryFlow.Name
