import EntryFlow.Datum.Bytes
import EntryFlow.Datum.Json.Printer
import EntryFlow.Datum.Yaml.Printer
import EntryFlow.Host
import EntryFlow.Settings

/-!
# Settings in files

A file of settings holds YAML if its name ends in `.yaml` or `.yml`, and JSON otherwise.

## Main definitions

* `Settings.ofBytes`: the settings that the bytes of a file describe.
* `Settings.ofFile`, `Settings.ofEnvironment`, `Settings.toFile`.
-/

namespace EntryFlow

namespace Settings

/-- The environment variable that names a file of settings. -/
def variableName : String := "CODEDOC_CALLFLOW_CONFIG"

/-- Whether a file holds YAML. -/
def isYaml (path : Path) : Bool :=
  path.suffix = ".yaml" || path.suffix = ".yml"

/-- The value that the bytes of a file hold. An empty YAML document describes the defaults. -/
def datumOf (path : Path) (bytes : List UInt8) : Except Fault Datum :=
  if isYaml path then
    (Yaml.ofBytes bytes).map fun d => if d.isEmpty then .object [] else d
  else Json.ofBytes bytes

/-- The settings that the bytes of a file describe. -/
def ofBytes (path : Path) (bytes : List UInt8) : Except Fault Settings := do
  load (← datumOf path bytes)

/-- The text of a file that describes the settings. -/
def fileText (path : Path) (s : Settings) : String :=
  if isYaml path then Yaml.document s.save else Json.pretty s.save

/-- Settings as an example to start from. -/
def sample : Settings :=
  { default with
    ignorePatterns := texts [".git", "target", "build", "*Test.java"]
    maxWorkers := .int 4
    rootTimeout := .float (.ofRatio false 30 1) }

/-- Where an example is written unless a path is given. -/
def samplePath : String := "callflow_config.json"

variable {m : Type → Type} [Monad m] [MonadExceptOf Fault m] [Host m]

/-- Read settings from a file. -/
def ofFile (path : String) : m Settings := do
  let path := Path.ofText path
  if (← Host.kind? (m := m) path.text).isNone then throw (.configMissing path.text)
  Host.ofResult (ofBytes path (← Host.read path.text))

/-- Read settings from the file that the environment variable names, if it names one. -/
def ofEnvironment (value? : Option String) : m Settings :=
  match value?.filter (!·.isEmpty) with
  | some path => do
    Host.tell .info ("Loading config from $" ++ variableName ++ ": " ++ path)
    ofFile path
  | none => pure default

/-- Write settings to a file. -/
def toFile (s : Settings) (path : String) : m Unit := do
  let path := Path.ofText path
  Host.write path.text (Text.encode (s.fileText path))
  Host.tell .info ("Saved configuration to: " ++ path.text)

end Settings

end EntryFlow
