import EntryFlow.Diagram
import EntryFlow.Host
import EntryFlow.Table
import EntryFlow.Text.Utf8

/-!
# Diagrams in files

One file for each trace that has steps, in a directory that is made if it is missing.
-/

namespace EntryFlow.Diagram

variable {m : Type → Type} [Monad m] [MonadExceptOf Fault m] [Host m]

/-- Write the diagram of a trace, if it has one, and tell where. -/
def writeTrace (directory : Path) (entry : String) (t : Trace) : m (Option (String × Path)) := do
  if t.steps.isEmpty then
    Host.tell .info "No call flow provided for sequence diagram generation."
    return none
  let path := directory.child (fileName entry)
  Host.write path.text (Text.encode (source t entry))
  return some (entry, path)

/-- Write the diagrams of some traces into a directory and list the files in order. -/
def writeAll (traces : Table String Trace) (directory : String) : m (List (String × Path)) := do
  let directory := Path.ofText directory
  Host.makeDirectories directory
  let written ← traces.mapM fun t => writeTrace directory t.1 t.2
  let written := written.filterMap id
  Host.tell .info s!"Wrote {written.length} sequence diagrams to {directory.text}"
  return written

end EntryFlow.Diagram
