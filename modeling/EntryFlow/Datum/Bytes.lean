import EntryFlow.Datum.Json.Reader
import EntryFlow.Datum.Yaml.Reader
import EntryFlow.Fault
import EntryFlow.Text.Utf8

/-!
# Documents in bytes

The value of the document that a file holds. A file must be UTF-8, and its line ends are unified.
-/

namespace EntryFlow

/-- The text that bytes encode, with unified line ends. -/
def textOfBytes (bytes : List UInt8) : Except Fault (List Char) :=
  match Text.decodeStrict? bytes with
  | some cs => .ok (Text.unifyLines cs)
  | none => .error .malformedUtf8

/-- The value of a JSON document. -/
def Json.ofBytes (bytes : List UInt8) : Except Fault Datum := do
  match Json.parse? (← textOfBytes bytes) with
  | some d => return d
  | none => throw .malformedJson

/-- The value of a YAML document. -/
def Yaml.ofBytes (bytes : List UInt8) : Except Fault Datum := do
  Yaml.parse (← textOfBytes bytes)

end EntryFlow
