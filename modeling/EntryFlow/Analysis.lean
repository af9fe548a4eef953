import EntryFlow.Settings
import EntryFlow.Traversal

/-!
# Analysis of a corpus

Each entry point of a corpus is walked on its own, and the traces are put together in the order of
the entry points. Several workers may share the roots: a walk depends on nothing but the index, so
the traces stay the same. But for the trace of a worker a run waits no longer than the time limit,
and an entry point that is late then is left out. When the walks end is not up to the program, so a
run is given what its waits come to. A journal goes through all runs of one analyzer, so that a call
that cannot be resolved is warned of once.

## Main definitions

* `Journal`, `Analysis`: the log, the calls warned of, and computations that keep them.
* `Wait`, `Waits`: what a run finds when it asks for the traces of its workers.
* `Settings.fates`: what becomes of the entry points of a run.
* `Settings.traceEntryPoints`, `Settings.entryPointFlows`, `Settings.callFlow`.
* `Journal.unresolvedCalls`.
-/

namespace EntryFlow

/-- The log of an analyzer and the calls that it has warned of. -/
structure Journal where
  warned : List Datum
  log : List LogRecord

/-- A journal without entries. -/
def Journal.empty : Journal := ⟨[], []⟩

/-- Computations that keep a journal, also when they end in a fault. -/
abbrev Analysis := EStateM Fault Journal

namespace Analysis

/-- A result that needs no journal. -/
def ofResult {α : Type} : Except Fault α → Analysis α
  | .ok a => pure a
  | .error fault => throw fault

/-- Write into the log. -/
def log (level : Level) (text : String) (ofWorker : Bool := false) : Analysis Unit :=
  modify fun j => { j with log := j.log ++ [{ level, text, ofWorker }] }

/-- The warning about a call that could not be resolved. -/
def unresolvedWarning (call : Datum) (caller : String) : String :=
  "Call '" ++ call.display ++ "' from " ++ caller ++ " could not be resolved. " ++
    "It might be an external library method or a parsing gap."

/-- Take down a report of a walk. A call is warned of the first time. -/
def note (byWorker : Bool) : Report → Analysis Unit
  | .blankKey key =>
    log .warning ("Null base FQN for lookup key '" ++ key.display ++ "'") byWorker
  | .unresolved call caller => do
    if !call.isKey then throw .notAKey
    if call ∈ (← get).warned then return
    modify fun j => { j with warned := j.warned ++ [call] }
    log .warning (unresolvedWarning call caller) byWorker

/-- The trace of a walk from a key. -/
def trace (byWorker : Bool) (conventions : Conventions) (index : Index) (entry : String)
    (key : Datum) : Analysis Trace := do
  let (walk, fault?) := (Walk.start entry).extend conventions index key
  walk.reports.forM (note byWorker)
  match fault? with
  | some fault => throw fault
  | none => return walk.trace

/-- Take down the first reports of the walk of a worker from a key. What goes wrong with it does not
matter to anyone else. -/
def overhear (conventions : Conventions) (index : Index) (entry : String) (key : Datum)
    (count : Nat) : Analysis Unit :=
  tryCatch ((((Walk.start entry).extend conventions index key).1.reports.take count).forM
    (note true)) fun _ => pure ()

end Analysis

/-- The distinct calls that could not be resolved, sorted. -/
def Journal.unresolvedCalls (j : Journal) : Except Fault (List Datum) :=
  match j.warned with
  | [] => .ok []
  | [call] => .ok [call]
  | calls =>
    match calls.mapM Datum.text? with
    | some texts => .ok ((texts.mergeSort fun a b => decide (a ≤ b)).map .text)
    | none => .error .notOrdered

/-! ## Waiting for workers -/

/-- What a run finds when it asks for the trace of a worker. -/
inductive Wait where
  /-- The walk has ended. -/
  | ended
  /-- The walk ends while the run waits for it. -/
  | inTime
  /-- The walk goes on when the time limit is over. It has come to some of its reports by the end of
  the run. -/
  | late (reports : Nat)
  deriving DecidableEq, Repr

/-- The waits of a run, by the position of the entry point. -/
abbrev Waits := Nat → Wait

/-- The waits of a run in which every walk has ended when its trace is asked for. -/
def Waits.none : Waits := fun _ => .ended

/-- What becomes of an entry point of a run. -/
inductive Fate where
  | traced
  /-- It is left out, with that number of its reports taken down. -/
  | omitted (reports : Nat)
  /-- No wait is possible. -/
  | refused
  deriving DecidableEq, Repr

namespace Settings

open Analysis

/-- Whether the roots are shared among workers. -/
def isParallel (s : Settings) (roots : List EntryPoint) : Bool :=
  roots.length > 1 && s.maxWorkers.exceeds 1

/-- The greatest number of seconds for which a wait can be asked. -/
def longestWait : Int := 9223372036

/-- What becomes of an entry point that a worker has. Without a time limit no walk is late, and a
limit that is too long is noticed only when there is a walk to wait for. -/
def fate (s : Settings) : Wait → Fate
  | .ended => .traced
  | .inTime => if s.rootTimeout.exceeds longestWait then .refused else .traced
  | .late reports =>
    if s.rootTimeout = .null then .traced
    else if s.rootTimeout.exceeds longestWait then .refused
    else .omitted reports

/-- What becomes of the entry points of a run. -/
def fates (s : Settings) (waits : Waits) (roots : List EntryPoint) : List (EntryPoint × Fate) :=
  roots.mapIdx fun i root => (root, if s.isParallel roots then s.fate (waits i) else .traced)

/-- The warning about an entry point that is left out. -/
def lateWarning (s : Settings) (root : EntryPoint) : String :=
  "Call flow for " ++ root.signature ++ " did not finish within " ++ s.rootTimeout.display ++
    "s; omitting it"

/-- The entry of an entry point in the traces of a run, unless it is left out. -/
def traceRoot (s : Settings) (byWorker : Bool) (conventions : Conventions) (index : Index)
    (root : EntryPoint) : Fate → Analysis (Option (String × Trace))
  | .traced => do
    let t ← trace byWorker conventions index root.signature (.text root.baseFqn)
    return some (root.signature, t)
  | .omitted reports => do
    overhear conventions index root.signature (.text root.baseFqn) reports
    log .warning (s.lateWarning root)
    return none
  | .refused => throw .waitTooLong

/-- The traces of the entry points of a corpus, by signature. -/
def traceEntryPoints (s : Settings) (waits : Waits) (types : Option (List TypeRecord)) :
    Analysis (Table String Trace) := do
  match types with
  | none =>
    log .warning "Input type list is None. Cannot generate call flows."
    return []
  | some types =>
    log .info s!"Call flow analysis received {types.length} types"
    let index ← ofResult (Index.build types)
    let conventions ← ofResult s.conventions
    let roots ← ofResult (entryPoints s.entryKinds types)
    log .info (s!"Indexed {index.types.length} types and {index.methods.length} methods; " ++
      s!"{roots.length} entry points")
    let entries ← (s.fates waits roots).mapM fun (root, fate) =>
      s.traceRoot (s.isParallel roots) conventions index root fate
    let traces := (Table.ofList (entries.filterMap id)).select (roots.map (·.signature))
    for root in roots do
      if (traces.find? root.signature).any (·.steps.isEmpty) then
        log .warning s!"Flow for entry point {root.signature} was empty"
    let traces := traces.filter fun t => !t.2.steps.isEmpty
    log .info s!"Generated {traces.length} call flows from {roots.length} entry points"
    return traces

/-- The flows of the entry points of a corpus, by signature. -/
def entryPointFlows (s : Settings) (waits : Waits) (types : Option (List TypeRecord)) :
    Analysis (Table String (List String)) := do
  return (← s.traceEntryPoints waits types).map fun t => (t.1, t.2.flow)

/-- The flow from a single key. -/
def callFlow (s : Settings) (key : Datum) (types : Option (List TypeRecord)) :
    Analysis (List String) := do
  let index ← ofResult (Index.build (types.getD []))
  let conventions ← ofResult s.conventions
  return (← trace false conventions index key.display key).flow

end Settings

end EntryFlow
