import EntryFlow.Corpus.Record
import EntryFlow.Text.Case

/-!
# Entry points

The methods of the types of certain kinds, such as controllers, are the roots of call flows.
-/

namespace EntryFlow

/-- The kinds whose methods are entry points unless a configuration says otherwise. -/
def defaultEntryKinds : List String := ["controller", "soap"]

/-- A root: its signature as it was declared and its base name. -/
structure EntryPoint where
  signature : String
  baseFqn : String
  deriving DecidableEq, Repr

/-- Kinds of types in lower case. -/
def lowerKinds (kinds : List Datum) : Except Fault (List String) :=
  kinds.mapM fun
    | .text s => .ok (Text.lower s)
    | _ => .error .noTextOperation

namespace TypeRecord

/-- Whether the methods of the type are entry points. -/
def isEntryType (kinds : List String) (t : TypeRecord) : Except Fault Bool := do
  return Text.lower (← t.kindText) ∈ kinds

/-- A method of the type as an entry point. -/
def entryPoint (t : TypeRecord) (m : Method) : Except Fault EntryPoint := do
  let baseFqn := t.fqn.display ++ "." ++ m.name.display
  return ⟨baseFqn ++ "(" ++ (← Datum.join ", " m.parameterTypes) ++ ")", baseFqn⟩

/-- The entry points that the type declares. -/
def entryPoints (kinds : List String) (t : TypeRecord) : Except Fault (List EntryPoint) := do
  if ← t.isEntryType kinds then t.methodList.mapM t.entryPoint else return []

end TypeRecord

/-- All entry points of a corpus in its order. -/
def entryPoints (kinds : List String) (types : List TypeRecord) :
    Except Fault (List EntryPoint) :=
  (types.mapM (TypeRecord.entryPoints kinds)).map List.flatten

end EntryFlow
