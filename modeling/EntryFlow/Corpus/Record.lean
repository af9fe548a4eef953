import EntryFlow.Fault
import EntryFlow.Name.Qualified

/-!
# Records of a corpus

A corpus lists the types of a code base with their fields and methods. Names and types are plain
texts and nothing is resolved. A record keeps whatever values a corpus file gives; sorts are looked
at where a value is used.

## Main definitions

* `Variable`, `Field`, `Method`, `TypeRecord`: the records.
* `TypeRecord.fqn`, `Method.baseFqn`, `Method.signature`: the names by which they are known.
-/

namespace EntryFlow

/-- A declared parameter or local variable. -/
structure Variable where
  type : Datum
  name : Datum
  deriving DecidableEq, Repr

/-- A field of a type. -/
structure Field where
  name : Datum
  type : Datum
  annotations : List Datum
  deriving DecidableEq, Repr

/-- A method of a type. The calls are raw call expressions in body order; a corpus may leave the
list out altogether. -/
structure Method where
  name : Datum
  returnType : Datum
  parameters : List Variable
  locals : List Variable
  calls : Option (List Datum)
  annotations : List Datum
  className : Datum
  packageName : Datum
  deriving DecidableEq, Repr

/-- A class, interface, enum or record. The kind decides about entry
points and about repositories. -/
structure TypeRecord where
  name : Datum
  packageName : Datum
  kind : Datum
  fields : Option (List Field)
  methods : Option (List Method)
  parent : Datum
  interfaces : List Datum
  annotations : List Datum
  filePath : Datum
  deriving DecidableEq, Repr

/-- A name in a package; without a package it is the name alone. -/
def Datum.qualify (package name : Datum) : Datum :=
  if package.isEmpty then name else .text (package.display ++ "." ++ name.display)

/-- A variable as it is declared. -/
def Variable.declaration (v : Variable) : String :=
  v.type.display ++ " " ++ v.name.display

namespace Method

/-- The name of the declaring type. -/
def typeFqn (m : Method) : Datum :=
  m.packageName.qualify (if m.className.isEmpty then .text "" else m.className)

/-- The declaring type and the method name, without parameters. -/
def baseFqn (m : Method) : String :=
  m.typeFqn.display ++ "." ++ m.name.display

/-- The declared types of the parameters. -/
def parameterTypes (m : Method) : List Datum :=
  m.parameters.map (·.type)

/-- The readable signature `pkg.Type.method(Parameter1, Parameter2)`. -/
def signature (m : Method) : Except Fault String := do
  return m.baseFqn ++ "(" ++ (← Datum.join ", " m.parameterTypes) ++ ")"

/-- The calls, none when the corpus leaves them out. -/
def callList (m : Method) : List Datum :=
  m.calls.getD []

end Method

namespace TypeRecord

/-- The name under which the type is known. -/
def fqn (t : TypeRecord) : Datum :=
  t.packageName.qualify t.name

/-- The methods, none when the corpus leaves them out. -/
def methodList (t : TypeRecord) : List Method :=
  t.methods.getD []

/-- The fields, none when the corpus leaves them out. -/
def fieldList (t : TypeRecord) : List Field :=
  t.fields.getD []

/-- The kind as a text; an absent kind is the empty one. -/
def kindText (t : TypeRecord) : Except Fault String :=
  if t.kind.isEmpty then .ok ""
  else
    match t.kind with
    | .text s => .ok s
    | _ => .error .noTextOperation

end TypeRecord

end EntryFlow
