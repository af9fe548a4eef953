import EntryFlow.Analysis

/-!
# Workers that share the entry points

The entry points of a corpus may be shared among workers. Each entry point is a task of its own with
its own walk, and the tasks are taken up in order, as soon as a worker is free. Only the journal is
common to them: a task that comes to a call which cannot be resolved takes it down in the journal
before it goes on. What the tasks do in between may be interleaved in any way.

## Main definitions

* `Walk.enter`: the beginning of a walk, up to its first frame.
* `Task`, `Task.advance`: an entry point and one step of its walk.
* `Pool`, `Pool.busy`, `Pool.traces`: all tasks of a run and what they give.
* `Plan`, `Settings.plan`: what the tasks of a run over a corpus are.
-/

namespace EntryFlow

/-- The beginning of the walk from a key: the frames from which it goes on. -/
def Walk.enter (index : Index) (w : Walk) (key : Datum) : Walk × Except Fault (List Frame) :=
  match key.walkKey with
  | .error fault => (w, .error fault)
  | .ok none => ((w.report (.blankKey key)).push ⟨blankMarker key, none, true⟩, .ok [])
  | .ok (some base) =>
    if base ∈ w.visited then (w, .ok [])
    else
      let w := w.visit base
      match index.locate? base with
      | none => (w.push ⟨w.missingMarker key, none, true⟩, .ok [])
      | some m =>
        let w := w.visit m.baseFqn
        let listed := if w.trace.steps.isEmpty then
            m.signature.map fun signature => w.push ⟨signature, none, false⟩
          else .ok w
        match listed with
        | .error fault => (w, .error fault)
        | .ok w => (w, (Frame.ofMethod index m).map ([·]))

/-- The walk from a key goes on from its beginning. -/
theorem Walk.extend_eq_enter (conventions : Conventions) (index : Index) (w : Walk) (key : Datum) :
    w.extend conventions index key =
      match w.enter index key with
      | (w, .error fault) => (w, some fault)
      | (w, .ok stack) => w.run conventions index stack := by
  have hdone : ∀ v : Walk, v.run conventions index [] = (v, none) := fun v => by rw [run]
  cases hkey : key.walkKey with
  | error fault => simp [extend, enter, hkey]
  | ok base? =>
    cases base? with
    | none => simp [extend, enter, hkey, hdone]
    | some base =>
      by_cases hold : base ∈ w.visited
      · simp [extend, enter, hkey, hold, hdone]
      · cases hm : index.locate? base with
        | none => simp [extend, enter, hkey, hold, hm, hdone]
        | some m =>
          simp only [extend, enter, hkey, if_neg hold, hm, fromMethod]
          generalize (if ((w.visit base).visit m.baseFqn).trace.steps.isEmpty then _ else _) = listed
          cases listed with
          | error fault => rfl
          | ok v => cases Frame.ofMethod index m <;> rfl

/-- What a worker sees when it takes down a call that could not be resolved: whether it is the first
to warn of the call. -/
structure Notice where
  call : Datum
  caller : String
  first : Bool
  deriving DecidableEq, Repr

/-- What is seen when a report is taken down. -/
def Journal.notice? (j : Journal) : Report → Option Notice
  | .blankKey _ => none
  | .unresolved call caller => some ⟨call, caller, call ∉ j.warned⟩

/-- The walk from an entry point, with the frames that are left and the number of its reports that
were taken down. -/
structure Task where
  root : EntryPoint
  walk : Walk
  stack : List Frame
  noted : Nat
  fault? : Option Fault

namespace Task

/-- The task of an entry point at its beginning. -/
def start (index : Index) (root : EntryPoint) : Task :=
  match (Walk.start root.signature).enter index (.text root.baseFqn) with
  | (walk, .ok stack) => ⟨root, walk, stack, 0, none⟩
  | (walk, .error fault) => ⟨root, walk, [], 0, some fault⟩

/-- Whether nothing is left to do. -/
def isDone (t : Task) : Bool :=
  t.fault?.isSome || (t.stack.isEmpty && t.noted == t.walk.reports.length)

/-- Take down a report in the journal. -/
def note (byWorker : Bool) (j : Journal) (t : Task) (report : Report) :
    Task × Journal × List Notice :=
  match (Analysis.note byWorker report).run j with
  | .ok _ j' => ({ t with noted := t.noted + 1 }, j', (j.notice? report).toList)
  | .error fault j' => ({ t with fault? := some fault }, j', [])

/-- Look at the next call of the top frame. -/
def look (conventions : Conventions) (index : Index) (t : Task) : Task :=
  match t.stack with
  | [] => t
  | top :: rest =>
    match t.walk.advance conventions index top rest with
    | (walk, .ok stack) => { t with walk, stack }
    | (walk, .error fault) => { t with walk, fault? := some fault }

/-- One step: a report is taken down before the next call is looked at. -/
def advance (conventions : Conventions) (index : Index) (byWorker : Bool) (j : Journal) (t : Task) :
    Task × Journal × List Notice :=
  match t.walk.reports[t.noted]? with
  | some report => t.note byWorker j report
  | none => (t.look conventions index, j, [])

/-- The trace of a task that is done. -/
def result (t : Task) : Except Fault (String × Trace) :=
  match t.fault? with
  | some fault => .error fault
  | none => .ok (t.root.signature, t.walk.trace)

end Task

/-- The tasks of a run in the order of the entry points, the journal that they share and what was
seen in it. -/
structure Pool where
  tasks : List Task
  journal : Journal
  notices : List Notice

namespace Pool

/-- All tasks at their beginning. -/
def start (index : Index) (roots : List EntryPoint) (j : Journal) : Pool :=
  ⟨roots.map (Task.start index), j, []⟩

/-- How many of some tasks are not done. -/
def busy (tasks : List Task) : Nat :=
  (tasks.filter fun t => !t.isDone).length

/-- Whether all tasks are done. -/
def isDone (p : Pool) : Bool :=
  p.tasks.all Task.isDone

/-- The traces of the tasks, put together in the order of the entry points. -/
def traces (p : Pool) : Except Fault (Table String Trace) :=
  (p.tasks.mapM Task.result).map fun entries =>
    (Table.ofList entries).filter fun t => !t.2.steps.isEmpty

/-- The calls that were seen for the first time. -/
def firsts (p : Pool) : List Datum :=
  (p.notices.filter (·.first)).map (·.call)

end Pool

/-- What a run over a corpus works with. -/
structure Plan where
  conventions : Conventions
  index : Index
  roots : List EntryPoint

namespace Settings

/-- The settings with a number of workers. -/
def withWorkers (s : Settings) (workers : Nat) : Settings :=
  { s with maxWorkers := .int workers }

/-- The index of a corpus, the conventions and the entry points. -/
def plan (s : Settings) (types : List TypeRecord) : Except Fault Plan := do
  let index ← Index.build types
  let conventions ← s.conventions
  let roots ← entryPoints s.entryKinds types
  return { conventions, index, roots }

end Settings

/-- All tasks of a run at their beginning. -/
def Plan.pool (plan : Plan) (j : Journal) : Pool :=
  .start plan.index plan.roots j

end EntryFlow
