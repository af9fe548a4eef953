import EntryFlow.Index

/-!
# Chains of calls

In `receiver.first().second()` the declared type of the receiver leads to `first`, whose return type
leads to `second`. The receiver is looked for among the parameters of the calling method, then among
its local variables, then among the fields of its type.

## Main definitions

* `Context`: what a calling method can see.
* `Index.receiverType`, `Index.typeTrail`, `Index.follow`.
-/

namespace EntryFlow

/-- The declaring type of a calling method and the declared types of the names that it can see. -/
structure Context where
  callerType : Datum
  parameters : Table Datum Datum
  locals : Table Datum Datum
  fields : Table Datum Datum

namespace Context

/-- The declared types of variables; the last declaration of a name counts. -/
def scope (vs : List Variable) : Except Fault (Table Datum Datum) :=
  if vs.all (·.name.isKey) then .ok (.ofList (vs.map fun v => (v.name, v.type)))
  else .error .notAKey

/-- What a method sees. -/
def ofMethod (index : Index) (m : Method) : Except Fault Context := do
  let parameters ← scope m.parameters
  let locals ← scope m.locals
  let fields ← index.fieldTypes m.typeFqn
  return { callerType := m.typeFqn, parameters, locals, fields }

/-- The declared type of a visible name. -/
def typeOf? (context : Context) (name : Datum) : Option Datum :=
  [context.parameters, context.locals, context.fields].findSome? (·.find? name)

end Context

namespace Index

/-- The type of a receiver, if it is declared. -/
def receiverType (index : Index) (receiver : Datum) (context : Context) :
    Except Fault (Option String) := do
  match context.typeOf? receiver with
  | none => return none
  | some declared =>
    if declared.isEmpty then return none
    let name ← index.resolveType declared
    return if name.isEmpty then none else some name

/-- The types that calls one after the other lead to from `current`, up to the first that has no
known return type. -/
def trailFrom (index : Index) (current : String) : List String → Except Fault (List String)
  | [] => .ok []
  | name :: names => do
    match ← index.lookupMember (.text current) name with
    | none => return []
    | some m =>
      if m.returnType.isEmpty then return []
      let next ← index.resolveType m.returnType
      return next :: (← index.trailFrom next names)

/-- The types of the receiver and of each call before the last one, as far as they are known. -/
def typeTrail (index : Index) (segments : List String) (context : Context) :
    Except Fault (List String) := do
  match segments with
  | receiver :: name :: names =>
    match ← index.receiverType (.text receiver) context with
    | none => return []
    | some type => return type :: (← index.trailFrom type (name :: names).dropLast)
  | _ => return []

/-- The method that the last of some calls, one after the other from `current`, refers to. -/
def followFrom (index : Index) (current : String) : List String → Except Fault (Option Method)
  | [] => .ok none
  | name :: names => do
    match ← index.lookupMember (.text current) name with
    | none => return none
    | some m =>
      if names.isEmpty then return some m
      if m.returnType.isEmpty then return none
      index.followFrom (← index.resolveType m.returnType) names

/-- The method that the last call of a chain refers to, if every step to it is known. -/
def follow (index : Index) (segments : List String) (context : Context) :
    Except Fault (Option Method) := do
  match segments with
  | receiver :: name :: names =>
    match ← index.receiverType (.text receiver) context with
    | none => return none
    | some type => index.followFrom type (name :: names)
  | _ => return none

theorem mem_methodList_of_followFrom {index : Index} {names : List String} {current : String}
    {m : Method} (h : index.followFrom current names = .ok (some m)) : m ∈ index.methodList := by
  induction names generalizing current with
  | nil => simp [followFrom] at h
  | cons name names ih =>
    simp only [followFrom, bind, Except.bind, pure, Except.pure] at h
    split at h
    · simp at h
    · split at h
      · simp at h
      · rename_i found hfound
        split at h
        · cases h
          exact mem_methodList_of_lookupMember (by assumption)
        · split at h
          · simp at h
          · split at h
            · simp at h
            · exact ih h

theorem mem_methodList_of_follow {index : Index} {segments : List String} {context : Context}
    {m : Method} (h : index.follow segments context = .ok (some m)) : m ∈ index.methodList := by
  simp only [follow, bind, Except.bind, pure, Except.pure] at h
  split at h
  · split at h
    · simp at h
    · split at h
      · simp at h
      · exact mem_methodList_of_followFrom h
  · simp at h

end Index

end EntryFlow
