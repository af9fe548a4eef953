import EntryFlow.Disk
import EntryFlow.Host

/-!
# Sessions in memory

A session holds a disk, the log with its level and the output so far. What was written stays when a
run ends in a fault.
-/

namespace EntryFlow

/-- A disk, a log and an output. -/
structure Session where
  disk : Disk
  log : List LogRecord
  level : Level
  output : String

namespace Session

/-- The session with a disk and nothing written. -/
def start (disk : Disk) : Session := ⟨disk, [], .info, ""⟩

/-- Computations in a session. -/
abbrev Run := EStateM Fault Session

/-- A result of the disk, with the path that it is about. -/
def ofDisk {α : Type} (path : String) : Except FileCause α → Run α
  | .ok a => pure a
  | .error cause => throw (.file cause path)

/-- What a path leads to. A name that is too long is refused, and any other path that cannot be
followed leads nowhere. -/
def kind? (disk : Disk) (path : String) : Except FileCause (Option FileKind) :=
  match disk.lookup path with
  | .ok (.file _) => .ok (some .file)
  | .ok (.directory _) => .ok (some .directory)
  | .error .nameTooLong => .error .nameTooLong
  | .error _ => .ok none

/-- Change the disk. -/
def change (path : String) (f : Disk → Except FileCause Disk) : Run Unit := do
  let disk ← ofDisk path (f (← get).disk)
  modify fun s => { s with disk }

instance : Host Run where
  kind? path := do ofDisk path (kind? (← get).disk path)
  read path := do ofDisk path ((← get).disk.read path)
  write path bytes := change path (·.write path bytes)
  makeDirectory path := change path (·.makeDirectory path)
  tree path := do return (← ofDisk path ((← get).disk.lookup path)).shape
  log record := modify fun s =>
    if record.level.rank < s.level.rank then s else { s with log := s.log ++ [record] }
  setLevel level := modify fun s => { s with level }
  print text := modify fun s => { s with output := s.output ++ text }

end Session

end EntryFlow
