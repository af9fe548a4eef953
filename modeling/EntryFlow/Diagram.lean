import EntryFlow.CallGraph

/-!
# Sequence diagrams

PlantUML source for a trace. Participants are the declaring types of the listed methods in order of
first use, and the categories of framework leaves; each step with a caller is a message.

## Main definitions

* `Diagram.ofTrace`: participants and messages of a trace.
* `Diagram.source`: the text of a diagram.
* `Diagram.fileName`: a safe file name for an entry point.
-/

namespace EntryFlow

/-- A participant: its name and whether it was a framework category when it was first used. -/
structure Participant where
  name : String
  framework : Bool
  deriving DecidableEq, Repr

/-- A message between two participants given by number. -/
structure Message where
  caller : Nat
  target : Nat
  method : String
  terminal : Bool
  deriving DecidableEq, Repr

/-- Participants and messages in order. -/
structure Diagram where
  participants : List Participant
  messages : List Message
  deriving DecidableEq, Repr

namespace Diagram

/-- Nothing drawn. -/
def empty : Diagram := ⟨[], []⟩

/-- The part of a text before a suffix, or the whole text. -/
def dropSuffix (suffix text : String) : String :=
  match suffix.toList.reverse.isPrefixOf? text.toList.reverse with
  | some rest => String.ofList rest.reverse
  | none => text

/-- The participant of a signature and the method name that it ends in. The mark of an entry point
without record is left out. -/
def participantOf (signature : String) : Participant × String :=
  let (className, methodName, framework) :=
    CallNode.parts (dropSuffix entryPointSuffix signature)
  (⟨if className.isEmpty then methodName else className, framework⟩, methodName)

/-- The number of a participant, which is declared if its name is new. -/
def numberOf (d : Diagram) (p : Participant) : Nat × Diagram :=
  match d.participants.findIdx? fun q => q.name = p.name with
  | some i => (i + 1, d)
  | none => (d.participants.length + 1, { d with participants := d.participants ++ [p] })

/-- Draw a step: its target, and the message from its caller if there is one. -/
def addStep (d : Diagram) (s : Step) : Diagram :=
  let (participant, method) := participantOf s.target
  let (target, d) := d.numberOf participant
  match s.caller with
  | none => d
  | some caller =>
    let (number, d) := d.numberOf (participantOf caller).1
    { d with messages := d.messages ++ [⟨number, target, method, s.terminal⟩] }

/-- The diagram of a trace. -/
def ofTrace (t : Trace) : Diagram :=
  t.steps.foldl addStep empty

/-- The line that declares a participant of a number. -/
def declaration (number : Nat) (p : Participant) : String :=
  "participant \"" ++ p.name ++ "\" as P" ++ toString number ++
    (if p.framework then " <<framework>>" else "")

/-- The line of a message. -/
def Message.line (m : Message) : String :=
  "P" ++ toString m.caller ++ (if m.terminal then " --> " else " -> ") ++ "P" ++
    toString m.target ++ ": " ++ m.method ++ "()"

/-- The declarations in order. -/
def declarations (d : Diagram) : List String :=
  d.participants.zipIdx.map fun (p, i) => declaration (i + 1) p

/-- The lines of a diagram with a title, or without one if it is empty. -/
def lines (d : Diagram) (title : String) : List String :=
  ["@startuml"] ++ (if title.isEmpty then [] else ["title " ++ title]) ++ ["autonumber"] ++
    d.declarations ++ d.messages.map Message.line ++ ["@enduml"]

/-- The source of the diagram of a trace, titled by its entry unless a title is given. A trace
without steps has none. -/
def source (t : Trace) (title : String) : String :=
  if t.steps.isEmpty then ""
  else
    "\n".intercalate ((ofTrace t).lines (if title.isEmpty then t.entry else title)) ++ "\n"

/-- Characters that may stand in a file name. -/
def isSafe (c : Char) : Bool :=
  c.isAlphanum || c = '_' || c = '.' || c = '-'

/-- The text with each run of unsafe characters made one underscore. -/
def safeText : List Char → List Char
  | [] => []
  | c :: cs =>
    if isSafe c then c :: safeText cs
    else
      match cs with
      | d :: _ => if isSafe d then '_' :: safeText cs else safeText cs
      | [] => ['_']

/-- The text without underscores on either side. -/
def trimUnderscores (cs : List Char) : List Char :=
  ((cs.dropWhile (· = '_')).reverse.dropWhile (· = '_')).reverse

/-- The file name for the diagram of an entry point. -/
def fileName (entry : String) : String :=
  let stem := trimUnderscores (safeText entry.toList)
  (if stem.isEmpty then "flow" else String.ofList stem) ++ ".puml"

end Diagram

end EntryFlow
