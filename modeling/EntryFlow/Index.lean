import EntryFlow.Corpus.Record
import EntryFlow.Table

/-!
# Index of a corpus

Lookup tables over the types and methods of a corpus. A method is known by the name of its type and
its own name; the parameters are not part of the key, so of overloads the last one remains.

## Main definitions

* `Index.build`: the index of a corpus.
* `Index.resolveType`: the type that a declared type refers to.
* `Index.lineage`: a type and its parents, nearest first, as far as they are known.
* `Index.lookupMember`, `Index.fieldTypes`: methods and fields with the inherited ones.
-/

namespace EntryFlow

/-- The types of a corpus by name and its methods by type and name. -/
structure Index where
  types : Table Datum TypeRecord
  methods : Table String Method

/-- The method with its declaring type filled in. -/
def Method.ownedBy (m : Method) (t : TypeRecord) : Method :=
  { m with className := t.name, packageName := t.packageName }

/-- The key of a method of a type. -/
def TypeRecord.methodKey (t : TypeRecord) (m : Method) : String :=
  t.fqn.display ++ "." ++ m.name.display

namespace Index

/-- The index of nothing. -/
def empty : Index := ⟨[], []⟩

/-- The index with one type more. -/
def add (index : Index) (t : TypeRecord) : Index where
  types := index.types.set t.fqn t
  methods := t.methodList.foldl (fun ms m => ms.set (t.methodKey m) (m.ownedBy t)) index.methods

/-- The index of types whose names can be keys. -/
def ofTypes (types : List TypeRecord) : Index :=
  types.foldl add empty

/-- The index of a corpus. -/
def build (types : List TypeRecord) : Except Fault Index :=
  if types.all (·.name.isKey) then .ok (ofTypes types) else .error .notAKey

/-- All methods in index order. -/
def methodList (index : Index) : List Method :=
  index.methods.values

/-- The type of that qualified name. -/
def type? (index : Index) (fqn : Datum) : Option TypeRecord :=
  index.types.find? fqn

/-- The method of that key. -/
def method? (index : Index) (key : String) : Option Method :=
  index.methods.find? key

/-- The first type of that simple name. -/
def typeNamed? (index : Index) (name : Datum) : Option TypeRecord :=
  index.types.values.find? (·.name = name)

/-- The name of the indexed type that a raw name refers to, or the raw name itself. -/
def resolveName (index : Index) (name : String) : String :=
  if name.isEmpty || index.types.has (.text name) then name
  else
    match index.typeNamed? (.text (Name.simple name)) with
    | some t => t.fqn.display
    | none => name

end Index

/-- The raw name of a declared type; an absent declaration has the empty name. -/
def Datum.rawType (declared : Datum) : Except Fault String :=
  if declared.isEmpty then .ok ""
  else
    match declared with
    | .text s => .ok (Name.raw s)
    | _ => .error .noTextOperation

namespace Index

/-- The name of the indexed type that a declared type refers to, or its raw name. -/
def resolveType (index : Index) (declared : Datum) : Except Fault String :=
  declared.rawType.map index.resolveName

/-- A type and its parents, nearest first. The list breaks off where a declared parent cannot be
read, and then tells why. -/
structure Lineage where
  types : List Datum
  fault? : Option Fault

/-- The lineage of `current`, given the types already passed. `fuel` bounds its length. -/
def lineageFrom (index : Index) (fuel : Nat) (seen : List Datum) (current : Datum) : Lineage :=
  match fuel with
  | 0 => ⟨[], none⟩
  | fuel + 1 =>
    if current.isEmpty || current ∈ seen then ⟨[], none⟩
    else
      match index.type? current with
      | none => ⟨[current], none⟩
      | some t =>
        if t.parent.isEmpty then ⟨[current], none⟩
        else
          match index.resolveType t.parent with
          | .error fault => ⟨[current], some fault⟩
          | .ok parent =>
            let rest := lineageFrom index fuel (current :: seen) (.text parent)
            ⟨current :: rest.types, rest.fault?⟩

/-- A type and its parents up to the first one that is unknown, has no parent or repeats. Every
member but the last is a type of the index and no two are equal, which bounds their number. -/
def lineage (index : Index) (t : Datum) : Lineage :=
  index.lineageFrom (index.types.length + 1) [] t

/-- The method of that name which is declared on the type or on its nearest parent that has one. -/
def lookupMember (index : Index) (t : Datum) (name : String) : Except Fault (Option Method) :=
  let lineage := index.lineage t
  match lineage.types.findSome? fun t => index.method? (t.display ++ "." ++ name) with
  | some m => .ok (some m)
  | none =>
    match lineage.fault? with
    | some fault => .error fault
    | none => .ok none

/-- The fields of the types of a lineage in order. -/
def fieldsOf (index : Index) (types : List Datum) : List Field :=
  (types.filterMap index.type?).flatMap TypeRecord.fieldList

/-- The declared types of the fields of a type and of its parents; the nearest declaration of a
name counts. -/
def fieldTypes (index : Index) (t : Datum) : Except Fault (Table Datum Datum) :=
  let lineage := index.lineage t
  let fields := index.fieldsOf lineage.types
  if fields.all (·.name.isKey) then
    match lineage.fault? with
    | some fault => .error fault
    | none => .ok (fields.foldl (fun table f => table.setNew f.name f.type) [])
  else .error .notAKey

theorem mem_methodList_of_method? {index : Index} {key : String} {m : Method}
    (h : index.method? key = some m) : m ∈ index.methodList :=
  Table.mem_values_of_find? h

theorem mem_methodList_of_lookupMember {index : Index} {t : Datum} {name : String} {m : Method}
    (h : index.lookupMember t name = .ok (some m)) : m ∈ index.methodList := by
  simp only [lookupMember] at h
  split at h
  · rename_i found hfound
    obtain ⟨_, _, hm⟩ := List.exists_of_findSome?_eq_some hfound
    cases h
    exact mem_methodList_of_method? hm
  · split at h <;> simp at h

end Index

end EntryFlow
