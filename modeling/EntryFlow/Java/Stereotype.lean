import EntryFlow.Name.Qualified

/-!
# Kinds of declared types

The kind of a type follows from its annotations, its name, the types that it extends or implements,
and last from how it is declared.
-/

namespace EntryFlow.Java

/-- How a type is declared. -/
inductive Declaration where
  | ofClass
  | ofInterface
  | ofEnum
  | ofRecord
  deriving DecidableEq, Repr

/-- Interfaces that make a type a repository. -/
def repositoryBases : List String :=
  ["JpaRepository", "CrudRepository", "PagingAndSortingRepository"]

/-- Annotations of web service endpoints. -/
def soapAnnotations : List String := ["Endpoint", "WebService"]

/-- Whether a text ends in another one. -/
def endsIn (suffix text : String) : Bool :=
  suffix.toList.isSuffixOf text.toList

/-- The kind of a type. Annotations of endpoints come before those that end in `Service`. -/
def kindOf (name : String) (annotations : List String) (parent : Option String)
    (interfaces : List String) (declaration : Declaration) : String :=
  let simple := annotations.map Name.simple
  let supertypes := ((parent.filter (!·.isEmpty)).toList ++ interfaces).map Name.base
  let annotated (suffix : String) : Bool := simple.any (endsIn suffix)
  if annotated "Controller" then "controller"
  else if simple.any (· ∈ soapAnnotations) then "soap"
  else if annotated "Service" then "service"
  else if annotated "Repository" then "repository"
  else if endsIn "Repository" name || supertypes.any (· ∈ repositoryBases) then "repository"
  else if annotated "Component" then
    if annotated "Configuration" then "config" else "component"
  else if annotated "Configuration" then "config"
  else if annotated "Entity" then "entity"
  else
    match declaration with
    | .ofInterface => "interface"
    | .ofEnum => "enum"
    | _ => "class"

end EntryFlow.Java
