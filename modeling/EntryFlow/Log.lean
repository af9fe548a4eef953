import EntryFlow.Fault

/-!
# Log records

What a run tells its user on the way, with four levels.
-/

namespace EntryFlow

/-- How grave a log record is. -/
inductive Level where
  | debug
  | info
  | warning
  | error
  deriving DecidableEq, Repr

namespace Level

/-- All levels from the least grave up. -/
def all : List Level := [debug, info, warning, error]

/-- The name of a level. -/
def name : Level → String
  | debug => "DEBUG"
  | info => "INFO"
  | warning => "WARNING"
  | error => "ERROR"

/-- The level of that name. -/
def ofName? (s : String) : Option Level :=
  all.find? (·.name = s)

/-- The rank of a level. -/
def rank : Level → Nat
  | debug => 0
  | info => 1
  | warning => 2
  | error => 3

end Level

/-- A line of the log. A line about a failure ends in what went wrong. The lines of workers stand
among the others in the order in which they came. -/
structure LogRecord where
  level : Level
  text : String
  fault? : Option Fault := none
  /-- Whether a worker wrote the line. -/
  ofWorker : Bool := false
  deriving DecidableEq, Repr

end EntryFlow
