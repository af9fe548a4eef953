import EntryFlow.Java.Declarations
import EntryFlow.Java.Grammar
import EntryFlow.Path
import EntryFlow.Text.Case

/-!
# Java sources

From the text of a source to the types that it declares.
-/

namespace EntryFlow.Java

/-- Whether a path has the extension of Java sources, in upper or lower case. -/
def supports (path : String) : Bool :=
  Text.lower (Path.ofText path).suffix = ".java"

/-- The types that a source declares. The path, if there is one, must have a supported extension and
is kept in the records. -/
def parse (source : Option String) (path : Option String) : Except Fault (List TypeRecord) :=
  match path.filter (!·.isEmpty), source with
  | some name, none =>
    if supports name then .error (.sourceWithoutText name)
    else .error (.unsupportedExtension (Path.ofText name).suffix)
  | some name, some text =>
    if supports name then .ok (typesOf path (parseTree text.toList))
    else .error (.unsupportedExtension (Path.ofText name).suffix)
  | none, some text => .ok (typesOf path (parseTree text.toList))
  | none, none => .error (.sourceWithoutText "<source>")

end EntryFlow.Java
