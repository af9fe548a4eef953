import EntryFlow.Datum.Display

/-!
# What can go wrong

`Fault` lists the causes for which an operation gives no result. A corpus or a configuration is
loosely typed: a value of the wrong sort is a fault of the operation that needs another sort.
`Fault.message?` words the faults that are reported to a user.
-/

namespace EntryFlow

/-- Why the file system refuses an operation on a path. -/
inductive FileCause where
  | noEntry
  | occupied
  | notDirectory
  | isDirectory
  | nameTooLong
  deriving DecidableEq, Repr

/-- The number of a cause. -/
def FileCause.code : FileCause → Nat
  | noEntry => 2
  | occupied => 17
  | notDirectory => 20
  | isDirectory => 21
  | nameTooLong => 36

/-- All causes. -/
def FileCause.all : List FileCause :=
  [noEntry, occupied, notDirectory, isDirectory, nameTooLong]

/-- The cause of that number. -/
def FileCause.ofCode? (code : Nat) : Option FileCause :=
  all.find? (·.code = code)

/-- The wording of a cause. -/
def FileCause.wording : FileCause → String
  | noEntry => "No such file or directory"
  | occupied => "File exists"
  | notDirectory => "Not a directory"
  | isDirectory => "Is a directory"
  | nameTooLong => "File name too long"

/-- The causes for which an operation gives no result. -/
inductive Fault where
  /-- A value that is no list, text or object was to be read as a sequence. -/
  | notASequence
  /-- A field was taken from a value that is no object. -/
  | notARecord
  /-- A value that is no text was to be joined, extended or searched. -/
  | notAText
  /-- Values that have no common order were compared. -/
  | notOrdered
  /-- A list or an object was to be used as a key. -/
  | notAKey
  /-- An operation on texts was asked of another value. -/
  | noTextOperation
  /-- Optional fields were asked of a value that is no object. -/
  | noFieldAccess
  /-- An object lacks a field that it must have. -/
  | missingField (name : String)
  /-- Fewer than one worker. -/
  | tooFewWorkers (given : Datum)
  /-- A time limit that is not positive. -/
  | timeoutNotPositive (given : Datum)
  /-- A log level that is not one of the four. -/
  | unknownLogLevel (name : String)
  /-- A corpus file that does not hold a list. -/
  | corpusNotAList (path : String)
  /-- A source without text. -/
  | sourceWithoutText (name : String)
  /-- A source file with an extension that is not supported. -/
  | unsupportedExtension (extension : String)
  /-- A configuration file that does not exist. -/
  | configMissing (path : String)
  /-- A source directory that does not exist. -/
  | sourceMissing (path : String)
  /-- A refusal of the file system. -/
  | file (cause : FileCause) (path : String)
  /-- A text that is not a JSON document. -/
  | malformedJson
  /-- A text that is not a YAML document. -/
  | malformedYaml
  /-- A text that is to be a number and is none. -/
  | malformedNumber
  /-- Bytes that are not UTF-8. -/
  | malformedUtf8
  /-- A time limit for which no wait can be asked. -/
  | waitTooLong
  deriving DecidableEq, Repr

namespace Fault

/-- The wording of the faults that are reported to a user. -/
def message? : Fault → Option String
  | missingField name => some (Text.quoted name)
  | tooFewWorkers given => some ("max_workers must be at least 1, got " ++ given.display)
  | timeoutNotPositive given => some ("root_timeout must be positive, got " ++ given.display)
  | unknownLogLevel name => some ("Unknown log level: " ++ name)
  | corpusNotAList path => some ("Expected a JSON list of type records in " ++ path)
  | sourceWithoutText name =>
    some ("Failed to parse " ++ name ++ ": 'NoneType' object has no attribute 'encode'")
  | unsupportedExtension extension => some ("Unsupported file extension: " ++ extension)
  | configMissing path => some ("Config file not found: " ++ path)
  | sourceMissing path => some ("Source directory not found: " ++ path)
  | file cause path =>
    some ("[Errno " ++ toString cause.code ++ "] " ++ cause.wording ++ ": " ++ Text.quoted path)
  | _ => none

/-- The wording of any fault. -/
def wording (fault : Fault) : String :=
  fault.message?.getD <|
    match fault with
    | malformedJson => "The text is not a JSON document"
    | malformedYaml => "The text is not a YAML document"
    | malformedNumber => "The text is not a number"
    | malformedUtf8 => "The bytes are not UTF-8"
    | waitTooLong => "The time limit is too long to wait for"
    | _ => "A value is of the wrong sort"

end Fault

/-- The parts that a value is a sequence of. -/
def Datum.items (d : Datum) : Except Fault (List Datum) :=
  match d.items? with
  | some items => .ok items
  | none => .error .notASequence

/-- Texts with a separator between them. -/
def Datum.join (separator : String) (ds : List Datum) : Except Fault String :=
  match ds.mapM Datum.text? with
  | some texts => .ok (separator.intercalate texts)
  | none => .error .notAText

/-- Whether a value may be a key. -/
def Datum.isKey : Datum → Bool
  | .list _ => false
  | .object _ => false
  | _ => true

/-- The order of a number and an integer, where the number has one. Truth values count
as 0 and 1. -/
def Datum.compareInt (d : Datum) (n : Int) : Except Fault (Option Ordering) :=
  match d with
  | .bool b => .ok (some (compare (if b then 1 else 0) n))
  | .int m => .ok (some (compare m n))
  | .float x => .ok (x.compareInt? n)
  | _ => .error .notOrdered

/-- Whether a value is a number above an integer. -/
def Datum.exceeds (d : Datum) (n : Int) : Bool :=
  match d.compareInt n with
  | .ok order => order = some .gt
  | .error _ => false

end EntryFlow
