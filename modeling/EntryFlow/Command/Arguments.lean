import EntryFlow.Number.Integer

/-!
# Arguments of the command

Options may be cut short as long as they stay unique. A value follows as the next argument or behind
an equals sign, and behind a short option without anything between. The last value of an option
counts. Behind `--` no argument is an option. At most one argument is no option: the directory of
the sources.

## Main definitions

* `Command.Arguments`, `Command.Arguments.ofList?`.
-/

namespace EntryFlow.Command

/-- The options of the command. -/
inductive Parameter where
  | help
  | typesJson
  | config
  | output
  | diagramsDir
  | graph
  | workers
  | logLevel
  | generateConfig
  deriving DecidableEq, Repr

namespace Parameter

/-- The spellings of the options. -/
def spellings : List (String × Parameter) :=
  [("-h", help), ("--help", help), ("--types-json", typesJson), ("--config", config),
    ("--output", output), ("-o", output), ("--diagrams-dir", diagramsDir), ("--graph", graph),
    ("--workers", workers), ("--log-level", logLevel), ("--generate-config", generateConfig)]

/-- The option of exactly that spelling. -/
def named? (spelling : String) : Option Parameter :=
  spellings.lookup spelling

end Parameter

/-- What an argument is by itself. -/
inductive Argument where
  /-- An option, with its value if that is part of the argument. -/
  | option (parameter : Parameter) (value? : Option String)
  | plain (text : String)
  /-- An option that does not exist or is cut too short. -/
  | unknown
  deriving DecidableEq, Repr

/-- Whether a text is a negative number, which is no option. -/
def isNegativeNumber (cs : List Char) : Bool :=
  let isDigit (c : Char) : Bool := (Text.digitValue? c).isSome
  let cs := if cs.getLast? = some '\n' then cs.dropLast else cs
  match cs with
  | '-' :: digits =>
    let rest := digits.dropWhile isDigit
    match rest with
    | [] => !digits.isEmpty
    | '.' :: places => !places.isEmpty && places.all isDigit
    | _ => false
  | _ => false

/-- The part of a text before its first equals sign and the part behind it. -/
def splitEquals (cs : List Char) : List Char × Option (List Char) :=
  match cs.dropWhile (· ≠ '=') with
  | [] => (cs, none)
  | _ :: value => (cs.takeWhile (· ≠ '='), some value)

/-- The options that a text with two dashes may be short for. -/
def longCandidates (cs : List Char) : List Argument :=
  let (stem, value?) := splitEquals cs
  (Parameter.spellings.filter fun s => stem.isPrefixOf s.1.toList).map fun s =>
    .option s.2 (value?.map String.ofList)

/-- The options that a text with one dash may stand for: a short option with its value. -/
def shortCandidates (cs : List Char) : List Argument :=
  (Parameter.spellings.filter fun s => s.1.toList = cs.take 2).map fun s =>
    .option s.2 (some (String.ofList (cs.drop 2)))

/-- What a text is that starts with a dash and is no exact option. -/
def guess (cs : List Char) : Argument :=
  let candidates := if "--".toList.isPrefixOf cs then longCandidates cs else shortCandidates cs
  match candidates with
  | [candidate] => candidate
  | _ :: _ => .unknown
  | [] => if isNegativeNumber cs || ' ' ∈ cs then .plain (String.ofList cs) else .unknown

/-- What an argument is that stands before `--`. -/
def Argument.ofText (text : String) : Argument :=
  let cs := text.toList
  if !"-".toList.isPrefixOf cs || cs.length = 1 then .plain text
  else
    match Parameter.named? text with
    | some parameter => .option parameter none
    | none =>
      match splitEquals cs with
      | (stem, some value) =>
        match Parameter.named? (String.ofList stem) with
        | some parameter => .option parameter (some (String.ofList value))
        | none => guess cs
      | (_, none) => guess cs

/-- The arguments of the command. -/
structure Arguments where
  sourceDir : Option String := none
  typesJson : Option String := none
  config : Option String := none
  output : Option String := none
  diagramsDir : Option String := none
  graph : Option String := none
  workers : Option Int := none
  logLevel : Option String := none
  generateConfig : Option String := none
  deriving DecidableEq, Repr

namespace Arguments

/-- Give an option a value. -/
def set? (a : Arguments) (parameter : Parameter) (value : String) : Option Arguments :=
  match parameter with
  | .help => none
  | .typesJson => some { a with typesJson := value }
  | .config => some { a with config := value }
  | .output => some { a with output := value }
  | .diagramsDir => some { a with diagramsDir := value }
  | .graph => some { a with graph := value }
  | .logLevel => some { a with logLevel := value }
  | .generateConfig => some { a with generateConfig := value }
  | .workers => (Integer.ofText? value).map fun n => { a with workers := some n }

/-- Take an argument that is no option. -/
def place? (a : Arguments) (text : String) : Option Arguments :=
  if a.sourceDir.isSome then none else some { a with sourceDir := some text }

/-- Take what stands behind `--`. The directory may stand there, or directly before it. -/
def close? (a : Arguments) (afterPlain : Bool) : List String → Option Arguments
  | [] => if a.sourceDir.isNone || afterPlain then some a else none
  | [text] => a.place? text
  | _ => none

/-- Take some arguments; `afterPlain` tells whether the one before them was no option. -/
def add? (a : Arguments) (afterPlain : Bool) : List String → Option Arguments
  | [] => some a
  | text :: rest =>
    if text = "--" then a.close? afterPlain rest
    else
      match Argument.ofText text with
      | .unknown => none
      | .plain text => (a.place? text).bind fun a => add? a true rest
      | .option parameter (some value) =>
        (a.set? parameter value).bind fun a => add? a false rest
      | .option parameter none =>
        match rest with
        | [] => none
        | value :: rest =>
          match Argument.ofText value with
          | .plain value => (a.set? parameter value).bind fun a => add? a false rest
          | _ => none

/-- A value that is not empty. -/
def given (value? : Option String) : Option String :=
  value?.filter (!·.isEmpty)

/-- Whether some arguments ask how the command is used. -/
def asksHelp (texts : List String) : Bool :=
  (texts.takeWhile (· ≠ "--")).any fun text => Argument.ofText text = .option .help none

/-- The arguments that texts stand for. Something must be there to work on. -/
def ofList? (texts : List String) : Option Arguments :=
  (add? {} false texts).filter fun a =>
    (given a.generateConfig).isSome || (given a.sourceDir).isSome || (given a.typesJson).isSome

end Arguments

end EntryFlow.Command
