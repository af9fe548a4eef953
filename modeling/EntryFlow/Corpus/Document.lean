import EntryFlow.Corpus.Record

/-!
# Records as documents

Reading of records from document values and writing them back. A field that is missing takes a
default; only a method and a type must have a name. Loading looks at the shape of lists and objects
alone, so that every value that was loaded is written back as it came.

## Main definitions

* `Variable.load`, `Field.load`, `Method.load`, `TypeRecord.load`.
* `Variable.save`, `Field.save`, `Method.save`, `TypeRecord.save`.
-/

namespace EntryFlow

namespace Datum

/-- A field of an object, or a default where the object lacks it. -/
def get (d : Datum) (key : String) (default : Datum) : Except Fault Datum :=
  match d with
  | .object fields => .ok ((lookup key fields).getD default)
  | _ => .error .noFieldAccess

/-- A field that an object must have. -/
def require (d : Datum) (key : String) : Except Fault Datum :=
  match d with
  | .object fields =>
    match lookup key fields with
    | some value => .ok value
    | none => .error (.missingField key)
  | _ => .error .notARecord

/-- A field that is a sequence, empty where the object lacks it. -/
def getItems (d : Datum) (key : String) : Except Fault (List Datum) := do
  (← d.get key (.list [])).items

/-- As `getItems`, but null may stand for a list that is left out. -/
def getItems? (nullable : Bool) (d : Datum) (key : String) : Except Fault (Option (List Datum)) := do
  let value ← d.get key (.list [])
  if nullable && value = .null then return none
  return some (← value.items)

end Datum

/-- Read a variable. -/
def Variable.load (d : Datum) : Except Fault Variable := do
  let type ← d.get "type" (.text "")
  let name ← d.get "name" (.text "")
  return ⟨type, name⟩

/-- Write a variable. -/
def Variable.save (v : Variable) : Datum :=
  .object [("type", v.type), ("name", v.name)]

/-- Read a field. -/
def Field.load (d : Datum) : Except Fault Field := do
  let name ← d.get "name" (.text "")
  let type ← d.get "type" (.text "")
  let annotations ← d.getItems "annotations"
  return ⟨name, type, annotations⟩

/-- Write a field. -/
def Field.save (f : Field) : Datum :=
  .object [("name", f.name), ("type", f.type), ("annotations", .list f.annotations)]

/-- Read a method; with `nullable`, null may stand for the list of calls. -/
def Method.load (nullable : Bool) (d : Datum) : Except Fault Method := do
  let name ← d.require "name"
  let returnType ← d.get "return_type" .null
  let parameters ← (← d.getItems "parameters").mapM Variable.load
  let locals ← (← d.getItems "local_variables").mapM Variable.load
  let calls ← d.getItems? nullable "called_methods"
  let annotations ← d.getItems "annotations"
  let className ← d.get "class_name" .null
  let packageName ← d.get "package_name" .null
  return { name, returnType, parameters, locals, calls, annotations, className, packageName }

/-- A list that must not be left out. -/
def present (items : Option (List Datum)) : Except Fault Datum :=
  match items with
  | some items => .ok (.list items)
  | none => .error .notASequence

/-- Write a method that has a list of calls. -/
def Method.save (m : Method) : Except Fault Datum := do
  return .object
    [("name", m.name), ("return_type", m.returnType),
      ("parameters", .list (m.parameters.map Variable.save)),
      ("local_variables", .list (m.locals.map Variable.save)),
      ("called_methods", ← present m.calls), ("annotations", .list m.annotations),
      ("class_name", m.className), ("package_name", m.packageName)]

/-- Read a type; with `nullable`, null may stand for the lists of fields, methods and calls. -/
def TypeRecord.load (nullable : Bool) (d : Datum) : Except Fault TypeRecord := do
  let name ← d.require "name"
  let packageName ← d.get "package_name" .null
  let kind ← d.get "kind" (.text "class")
  let fields ← (← d.getItems? nullable "fields").mapM (·.mapM Field.load)
  let methods ← (← d.getItems? nullable "methods").mapM (·.mapM (Method.load nullable))
  let parent ← d.get "parent_class" .null
  let interfaces ← d.getItems "interfaces"
  let annotations ← d.getItems "annotations"
  let filePath ← d.get "file_path" .null
  return { name, packageName, kind, fields, methods, parent, interfaces, annotations, filePath }

/-- Write a type that has lists of fields and methods. -/
def TypeRecord.save (t : TypeRecord) : Except Fault Datum := do
  let fields ← present (t.fields.map (·.map Field.save))
  let methods ← present (← t.methods.mapM (·.mapM Method.save))
  return .object
    [("name", t.name), ("package_name", t.packageName), ("kind", t.kind), ("fields", fields),
      ("methods", methods), ("parent_class", t.parent), ("interfaces", .list t.interfaces),
      ("annotations", .list t.annotations), ("file_path", t.filePath)]

end EntryFlow
