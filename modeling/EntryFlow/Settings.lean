import EntryFlow.Corpus.Document
import EntryFlow.EntryPoint
import EntryFlow.Log
import EntryFlow.Resolution

/-!
# Settings of an analysis

What is scanned, which types are entry points, which words the framework heuristic knows and how
much is logged. A draft holds the values as a document gives them; checking it normalizes
extensions, kinds and the log level and refuses numbers out of range. Patterns, markers and
receivers are taken as they are, and looked at where they are used.

## Main definitions

* `Settings.Draft`, `Settings.Draft.check`: the constructor of settings.
* `Settings.load`, `Settings.save`: settings as a document.
* `Settings.ignores`: whether a path below the source root is left out.
-/

namespace EntryFlow

/-- Checked settings. -/
structure Settings where
  /-- Each starts with a dot. -/
  extensions : List String
  ignorePatterns : Datum
  /-- In lower case. -/
  entryKinds : List String
  markers : Datum
  receivers : Datum
  /-- A number that is not below one. -/
  maxWorkers : Datum
  /-- Null, or a number of seconds that is not zero or below. -/
  rootTimeout : Datum
  logLevel : Level
  deriving DecidableEq, Repr

namespace Settings

/-- A list of texts as a value. -/
def texts (ss : List String) : Datum :=
  .list (ss.map .text)

/-- Settings before they are checked. -/
structure Draft where
  extensions : Datum := texts [".java"]
  ignorePatterns : Datum := texts
    [".git", "target", "build", ".gradle", "node_modules", ".idea", ".vscode", "out",
      "*Test.java", "*Tests.java"]
  entryKinds : Datum := texts defaultEntryKinds
  markers : Datum := texts defaultMarkers
  receivers : Datum := texts defaultReceivers
  maxWorkers : Datum := .int 1
  rootTimeout : Datum := .null
  logLevel : Datum := .text "INFO"

/-- An extension with its leading dot. -/
def dotted : Datum → Except Fault String
  | .text s => .ok (if ".".toList.isPrefixOf s.toList then s else "." ++ s)
  | _ => .error .noTextOperation

/-- The name of a log level in upper case. -/
def levelName : Datum → Except Fault String
  | .text s => .ok (Text.upper s)
  | _ => .error .noTextOperation

/-- At least one worker. -/
def checkWorkers (workers : Datum) : Except Fault Unit := do
  if (← workers.compareInt 1) = some .lt then throw (.tooFewWorkers workers)

/-- No time limit, or a positive one. -/
def checkTimeout (timeout : Datum) : Except Fault Unit := do
  if timeout = .null then return
  let order ← timeout.compareInt 0
  if order = some .lt || order = some .eq then throw (.timeoutNotPositive timeout)

/-- Normalize a draft and refuse values out of range. -/
def Draft.check (d : Draft) : Except Fault Settings := do
  let extensions ← (← d.extensions.items).mapM dotted
  let entryKinds ← lowerKinds (← d.entryKinds.items)
  let level ← levelName d.logLevel
  checkWorkers d.maxWorkers
  checkTimeout d.rootTimeout
  match Level.ofName? level with
  | none => throw (.unknownLogLevel level)
  | some logLevel =>
    return { extensions, ignorePatterns := d.ignorePatterns, entryKinds, markers := d.markers,
             receivers := d.receivers, maxWorkers := d.maxWorkers, rootTimeout := d.rootTimeout,
             logLevel }

/-- The settings that apply without a configuration. -/
def default : Settings where
  extensions := [".java"]
  ignorePatterns := ({} : Draft).ignorePatterns
  entryKinds := defaultEntryKinds
  markers := texts defaultMarkers
  receivers := texts defaultReceivers
  maxWorkers := .int 1
  rootTimeout := .null
  logLevel := .info

/-- The draft whose check gives the settings back. -/
def draft (s : Settings) : Draft where
  extensions := texts s.extensions
  ignorePatterns := s.ignorePatterns
  entryKinds := texts s.entryKinds
  markers := s.markers
  receivers := s.receivers
  maxWorkers := s.maxWorkers
  rootTimeout := s.rootTimeout
  logLevel := .text s.logLevel.name

/-- The draft that a document describes; fields that it lacks have their defaults. -/
def Draft.load (d : Datum) : Except Fault Draft := do
  let base : Draft := {}
  return { extensions := ← d.get "extensions" base.extensions
           ignorePatterns := ← d.get "ignore_patterns" base.ignorePatterns
           entryKinds := ← d.get "entry_point_kinds" base.entryKinds
           markers := ← d.get "framework_markers" base.markers
           receivers := ← d.get "logger_receivers" base.receivers
           maxWorkers := ← d.get "max_workers" base.maxWorkers
           rootTimeout := ← d.get "root_timeout" base.rootTimeout
           logLevel := ← d.get "log_level" base.logLevel }

/-- The settings that a document describes. -/
def load (d : Datum) : Except Fault Settings := do
  (← Draft.load d).check

/-- The settings as a document. -/
def save (s : Settings) : Datum :=
  .object
    [("extensions", texts s.extensions), ("ignore_patterns", s.ignorePatterns),
      ("entry_point_kinds", texts s.entryKinds), ("framework_markers", s.markers),
      ("logger_receivers", s.receivers), ("max_workers", s.maxWorkers),
      ("root_timeout", s.rootTimeout), ("log_level", .text s.logLevel.name)]

/-- The distinct extensions in order of their characters. -/
def extensionSet (s : Settings) : List String :=
  s.extensions.eraseDups.mergeSort fun a b => decide (a ≤ b)

/-- The conventions of the resolution. -/
def conventions (s : Settings) : Except Fault Conventions := do
  let markers ← s.markers.items
  let receivers ← s.receivers.items
  return { markers, receivers }

/-- Whether a pattern matches a path given by its text and its components. A pattern with a star
in front matches a suffix, one with a slash in front the first component, any other one any
component. -/
def patternMatches (path : List Char) (components : List (List Char)) (pattern : List Char) :
    Bool :=
  match pattern with
  | '*' :: suffix => suffix.isSuffixOf path
  | '/' :: name => components.head? == some name
  | name => components.contains name

/-- Whether one of some patterns matches. -/
def anyMatches (path : List Char) : List Datum → Except Fault Bool
  | [] => .ok false
  | .text pattern :: rest =>
    if patternMatches path (path.splitOn '/') pattern.toList then .ok true
    else anyMatches path rest
  | _ :: _ => .error .noTextOperation

/-- Whether a path below the source root is left out; backslashes count as slashes. -/
def ignores (s : Settings) (path : String) : Except Fault Bool := do
  anyMatches (path.toList.map fun c => if c = '\\' then '/' else c) (← s.ignorePatterns.items)

end Settings

end EntryFlow
