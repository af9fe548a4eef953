/-!
# Traces of call flows

A trace lists what an entry point reaches, in the order in which a depth-first walk comes to it,
together with the calls that were left out because their target was listed before.
-/

namespace EntryFlow

/-- What stands before every line of a flow that has a caller. -/
def edgeMarker : String := " -> "

/-- What stands behind the key of an entry point that has no record. -/
def entryPointSuffix : String := " (Entry Point)"

/-- A node of a flow. The caller is missing for the entry and for markers; a terminal node is not
expanded. -/
structure Step where
  target : String
  caller : Option String
  terminal : Bool
  deriving DecidableEq, Repr

/-- The line of a step. -/
def Step.line (s : Step) : String :=
  match s.caller with
  | none => s.target
  | some _ => edgeMarker ++ s.target

/-- The caller and the target of a step that has a caller. -/
def Step.edge? (s : Step) : Option (String × String) :=
  s.caller.map (·, s.target)

/-- The flow of one entry point and the calls left out of it. -/
structure Trace where
  entry : String
  steps : List Step
  suppressed : List (String × String)
  deriving DecidableEq, Repr

namespace Trace

/-- The trace before anything is listed. -/
def start (entry : String) : Trace := ⟨entry, [], []⟩

/-- The lines of the flow. -/
def flow (t : Trace) : List String :=
  t.steps.map Step.line

/-- Callers and targets in flow order. -/
def edges (t : Trace) : List (String × String) :=
  t.steps.filterMap Step.edge?

end Trace

end EntryFlow
