import EntryFlow.Datum.Yaml.Node
import EntryFlow.Datum.Yaml.Plain
import EntryFlow.Fault
import EntryFlow.Number.Shortest

/-!
# Reading YAML

The value of a YAML document. A tag or the form of a plain scalar tells the sort of a value; a
repeated key keeps its first place and its last value, and entries of merged maps give way to those
of the map itself. A date is no value of a document and is read as null.

## Main definitions

* `Yaml.parse`: the value of a text; nothing at all is null.
-/

namespace EntryFlow.Yaml

/-- The number of a text, or a fault. -/
def number {α : Type} : Option α → Except Fault α
  | some a => .ok a
  | none => .error .malformedNumber

/-- The value of a scalar of a form. -/
def ofForm (form : Form) (text : String) : Except Fault Datum :=
  match form with
  | .text => .ok (.text text)
  | .null => .ok .null
  | .date => .ok .null
  | .bool =>
    match boolWords.find? fun word => Text.lower word.1 = Text.lower text with
    | some word => .ok (.bool word.2)
    | none => .error (.missingField (Text.lower text))
  | .int => (number (integer? text.toList)).map .int
  | .float => (number (float? text.toList)).map .float
  | .merge => .error .malformedYaml
  | .default => .error .malformedYaml

/-- The forms of the tags that every document knows. -/
def tagForms : List (String × Form) :=
  [("str", .text), ("null", .null), ("bool", .bool), ("int", .int), ("float", .float),
    ("timestamp", .date), ("merge", .merge), ("value", .default)]

/-- The form of a tag. -/
def formOfTag? (tag : String) : Option Form :=
  tagForms.findSome? fun t => if commonTag ++ t.1 = tag then some t.2 else none

/-- The form of a scalar, which its tag or else its text tells. -/
def formOfScalar? (tag : Option String) (isPlain : Bool) (text : String) : Option Form :=
  match tag with
  | none => some (if isPlain then formOf text.toList else .text)
  | some "!" => some (formOf text.toList)
  | some tag => formOfTag? tag

/-- Whether a collection may have a tag. -/
def isTagOf (name : String) (tag : Option String) : Bool :=
  match tag with
  | none => true
  | some tag => tag = "!" || tag = commonTag ++ name

/-- The text of a value that is a key. -/
def keyText : Datum → Except Fault String
  | .text s => .ok s
  | .null => .ok "null"
  | .bool b => .ok (if b then "true" else "false")
  | .int n => .ok (toString n)
  | .float x => .ok x.text
  | _ => .error .malformedYaml

/-- The value of a scalar. -/
def ofScalar (tag : Option String) (isPlain : Bool) (text : String) : Except Fault Datum :=
  match formOfScalar? tag isPlain text with
  | some form => ofForm form text
  | none => .error .malformedYaml

/-- The key of an entry; nothing if the entry merges other maps. -/
def ofKey : Node → Except Fault (Option String)
  | .scalar tag isPlain text =>
    match formOfScalar? tag isPlain text with
    | some .merge => .ok none
    | some .default => .ok (some text)
    | some form => do return some (← keyText (← ofForm form text))
    | none => .error .malformedYaml
  | _ => .error .malformedYaml

mutual

/-- The value of a node. -/
def ofNode : Node → Except Fault Datum
  | .scalar tag isPlain text => ofScalar tag isPlain text
  | .list tag items => do
    if !isTagOf "seq" tag then throw .malformedYaml
    return .list (← ofItems items)
  | .map tag entries => do
    if !isTagOf "map" tag then throw .malformedYaml
    let (merged, own) ← ofEntries entries
    return .ofFields (merged ++ own)

/-- The values of items. -/
def ofItems : List Node → Except Fault (List Datum)
  | [] => .ok []
  | n :: ns => do
    let d ← ofNode n
    return d :: (← ofItems ns)

/-- The fields of merged maps and the fields of a map itself. -/
def ofEntries : List (Node × Node) →
    Except Fault (List (String × Datum) × List (String × Datum))
  | [] => .ok ([], [])
  | (key, value) :: rest => do
    match ← ofKey key with
    | some key =>
      let d ← ofNode value
      let (merged, own) ← ofEntries rest
      return (merged, (key, d) :: own)
    | none =>
      let fields ← ofMerged value
      let (merged, own) ← ofEntries rest
      return (fields ++ merged, own)

/-- The fields of a map, or of a list of maps of which an earlier one counts more. -/
def ofMerged : Node → Except Fault (List (String × Datum))
  | .map _ entries => do
    let (merged, own) ← ofEntries entries
    return merged ++ own
  | .list _ items => ofMergedItems items
  | .scalar .. => .error .malformedYaml

/-- The fields of maps, the last map first. -/
def ofMergedItems : List Node → Except Fault (List (String × Datum))
  | [] => .ok []
  | .map _ entries :: rest => do
    let (merged, own) ← ofEntries entries
    return (← ofMergedItems rest) ++ (merged ++ own)
  | _ :: _ => .error .malformedYaml

end

/-- The value of a text. -/
def parse (cs : List Char) : Except Fault Datum :=
  match (tokens? cs).bind document? with
  | none => .error .malformedYaml
  | some none => .ok .null
  | some (some n) => ofNode n

end EntryFlow.Yaml
