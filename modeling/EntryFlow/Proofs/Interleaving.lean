import EntryFlow.Proofs.RootTraces
import EntryFlow.Workers
import Mathlib.Algebra.Ring.Nat
import Mathlib.Logic.Relation

/-!
# Interleaved walks

Tasks that share a journal take their steps in any order that the number of workers allows. No order
goes on forever and none gets stuck before all tasks are done. Every task comes to what its walk
alone comes to, and the journal has warned of each call that a task took down, once.

## Main definitions

* `Task.Moves`: what one step of a task can do.
* `Pool.Step`: one step of some task that a worker has taken up.
* `Task.OnCourse`, `Pool.OnCourse`: the invariant of all interleavings.

## Main statements

* `Task.OnCourse.moves`: a task that is not done has a step, which is one of the two kinds.
* `Pool.OnCourse.step`: steps preserve the invariant.
* `Pool.OnCourse.acc`, `Pool.exists_step`: every interleaving ends, and not before all is done.
* `Pool.OnCourse.mem_warned`, `Pool.OnCourse.traces_eq`: what is there in the end.
-/

namespace EntryFlow

variable {conventions : Conventions} {index : Index}

/-- What the walk from an entry point comes to. -/
def EntryPoint.outcome (conventions : Conventions) (index : Index) (root : EntryPoint) : Walk :=
  Walk.complete conventions index root.signature root.baseFqn

/-! ## What is left of a walk -/

namespace Walk

/-- How many steps the machine takes from a stack. -/
def looks (conventions : Conventions) (index : Index) (w : Walk) : List Frame → Nat
  | [] => 0
  | top :: rest =>
    match h : w.advance conventions index top rest with
    | (_, .error _) => 1
    | (w', .ok frames) =>
      have := measure_advance_lt h
      looks conventions index w' frames + 1
termination_by frames => (w.unvisited index, pending frames)
decreasing_by assumption

theorem looks_cons_of_ok {w v : Walk} {top : Frame} {rest frames : List Frame}
    (h : w.advance conventions index top rest = (v, .ok frames)) :
    w.looks conventions index (top :: rest) = v.looks conventions index frames + 1 := by
  rw [looks]
  split <;> simp_all

@[simp] theorem reports_visit (w : Walk) (base : String) : (w.visit base).reports = w.reports := by
  unfold visit
  split <;> rfl

/-- A step keeps all reports there are. -/
theorem Advances.prefix_reports {w v : Walk} {stack frames : List Frame}
    (h : Advances conventions index w stack v frames) : w.reports <+: v.reports := by
  cases h with
  | ended | ignored | framework | suppressed => exact List.prefix_refl _
  | unresolved => exact List.prefix_append _ _
  | entered => simp [push]

theorem prefix_reports_of_run {w w' : Walk} {stack : List Frame}
    (h : w.run conventions index stack = (w', none)) : w.reports <+: w'.reports := by
  induction w, stack using run.induct conventions index with
  | case1 w =>
    rw [run_nil] at h
    cases h
    exact List.prefix_refl _
  | case2 w top rest v fault hadvance =>
    rw [run_cons_of_error hadvance] at h
    cases h
  | case3 w top rest v frames hadvance hlt ih =>
    rw [run_cons_of_ok hadvance] at h
    exact (advances_iff.mpr hadvance).prefix_reports.trans (ih h)

end Walk

/-! ## Tasks -/

namespace Task

/-- One step of a task that does not fail: a report is taken down, or, when all reports are, a step
of the walk is taken. -/
inductive Moves (conventions : Conventions) (index : Index) (byWorker : Bool) (j : Journal)
    (t : Task) : Task → Journal → List Notice → Prop where
  | noted {report j'} : t.walk.reports[t.noted]? = some report →
      (Analysis.note byWorker report).run j = .ok () j' →
      Moves conventions index byWorker j t { t with noted := t.noted + 1 } j'
        (j.notice? report).toList
  | looked {top rest walk stack} : t.walk.reports.length ≤ t.noted → t.stack = top :: rest →
      t.walk.advance conventions index top rest = (walk, .ok stack) →
      Moves conventions index byWorker j t { t with walk, stack } j []

/-- The calls that a task has taken down. -/
def calls (t : Task) : List Datum :=
  (t.walk.reports.take t.noted).filterMap Report.call?

/-- How many steps a task has still to take. -/
def remaining (conventions : Conventions) (index : Index) (t : Task) : Nat :=
  t.walk.looks conventions index t.stack +
    ((t.root.outcome conventions index).reports.length - t.noted)

/-- The task has met no fault and its walk is on the way to its outcome. -/
structure OnCourse (conventions : Conventions) (index : Index) (t : Task) : Prop where
  fault : t.fault? = none
  noted : t.noted ≤ t.walk.reports.length
  run : t.walk.run conventions index t.stack = (t.root.outcome conventions index, none)

section OnCourse

variable {t t' : Task} {byWorker : Bool} {j j' : Journal} {new : List Notice}

theorem root_start (index : Index) (root : EntryPoint) : (start index root).root = root := by
  unfold start
  split <;> rfl

theorem calls_start (index : Index) (root : EntryPoint) : (start index root).calls = [] := by
  unfold start
  split <;> rfl

/-- A task starts on course. -/
theorem OnCourse.start (hw : conventions.WellTyped) (h : index.WellFormed) (root : EntryPoint) :
    (start index root).OnCourse conventions index := by
  have hextend := Walk.extend_start hw h root.signature root.baseFqn
  rw [Walk.extend_eq_enter] at hextend
  unfold Task.start
  split at hextend
  · cases (Prod.mk.inj hextend).2
  · rename_i walk stack henter
    rw [henter]
    exact ⟨rfl, Nat.zero_le _, hextend⟩

namespace OnCourse

variable (ht : t.OnCourse conventions index)
include ht

/-- The next report of a task is one of its outcome, so it can be taken down. -/
theorem isKey_of_report (hw : conventions.WellTyped) (h : index.WellFormed) {report : Report}
    (hreport : t.walk.reports[t.noted]? = some report) : ∀ call ∈ report.call?, call.isKey := by
  have hmem : report ∈ (t.root.outcome conventions index).reports :=
    (Walk.prefix_reports_of_run ht.run).mem (List.mem_of_getElem? hreport)
  cases report with
  | blankKey key => simp [Report.call?]
  | unresolved call caller =>
    rintro _ ⟨⟩
    exact Walk.isKey_of_mem_reports_complete hw h _ _ hmem

/-- Every task that is not done has a step. -/
theorem moves (hw : conventions.WellTyped) (h : index.WellFormed) (hopen : t.isDone = false)
    (hadvance : t.advance conventions index byWorker j = (t', j', new)) :
    Moves conventions index byWorker j t t' j' new := by
  unfold advance at hadvance
  split at hadvance
  · rename_i report hreport
    obtain ⟨j'', hnote, -⟩ := Analysis.warns_note byWorker (ht.isKey_of_report hw h hreport) j
    rw [note, hnote] at hadvance
    cases hadvance
    exact .noted hreport hnote
  · rename_i hreport
    cases hadvance
    have hall : t.walk.reports.length ≤ t.noted := List.getElem?_eq_none_iff.mp hreport
    have hstack : t.stack ≠ [] := by
      intro hempty
      have hnoted : t.noted = t.walk.reports.length := Nat.le_antisymm ht.noted hall
      simp [isDone, hempty, hnoted] at hopen
    obtain ⟨top, rest, hstack⟩ := List.exists_cons_of_ne_nil hstack
    have hrun := ht.run
    rw [hstack] at hrun
    cases hstep : t.walk.advance conventions index top rest with
    | mk walk result =>
      cases result with
      | error fault =>
        rw [Walk.run_cons_of_error hstep] at hrun
        cases (Prod.mk.inj hrun).2
      | ok stack =>
        have hlook : t.look conventions index = { t with walk, stack } := by
          simp [look, hstack, hstep]
        rw [hlook]
        exact .looked hall hstack hstep

/-- A task that is done has come to its outcome and has taken down all of its reports. -/
theorem of_isDone (hdone : t.isDone = true) :
    t.walk = t.root.outcome conventions index ∧
      t.calls = (t.root.outcome conventions index).reports.filterMap Report.call? := by
  have hend : t.stack = [] ∧ t.noted = t.walk.reports.length := by
    simpa [isDone, ht.fault] using hdone
  have hrun := ht.run
  rw [hend.1, Walk.run_nil] at hrun
  have hwalk : t.walk = t.root.outcome conventions index := (Prod.mk.inj hrun).1
  refine ⟨hwalk, ?_⟩
  rw [calls, hend.2, List.take_length, hwalk]

end OnCourse

namespace Moves

variable (hmove : Moves conventions index byWorker j t t' j' new)
include hmove

theorem root_eq : t'.root = t.root := by
  cases hmove <;> rfl

/-- A step leaves a task on course. -/
theorem onCourse (ht : t.OnCourse conventions index) : t'.OnCourse conventions index := by
  cases hmove with
  | noted hreport hnote =>
    exact ⟨ht.fault, (List.getElem?_eq_some_iff.mp hreport).1, ht.run⟩
  | looked hall hstack hstep =>
    have hrun := ht.run
    rw [hstack, Walk.run_cons_of_ok hstep] at hrun
    have hprefix := (Walk.advances_iff.mpr hstep).prefix_reports
    exact ⟨ht.fault, ht.noted.trans hprefix.length_le, hrun⟩

/-- A step leaves one step less to take. -/
theorem remaining (ht : t.OnCourse conventions index) :
    t'.remaining conventions index + 1 = t.remaining conventions index := by
  cases hmove with
  | noted hreport hnote =>
    have hlt := (List.getElem?_eq_some_iff.mp hreport).1
    have hle := (Walk.prefix_reports_of_run ht.run).length_le
    simp only [Task.remaining]
    omega
  | looked hall hstack hstep =>
    simp only [Task.remaining, hstack, Walk.looks_cons_of_ok hstep]
    omega

/-- What a step adds to the calls taken down is entered in the journal, and is seen for the first
time if it is new there. -/
theorem exists_calls (ht : t.OnCourse conventions index) (hw : conventions.WellTyped)
    (h : index.WellFormed) :
    ∃ more, t'.calls = t.calls ++ more ∧ j'.warned = Journal.enter j.warned more ∧
      j'.warned = j.warned ++ (new.filter (·.first)).map (·.call) := by
  cases hmove with
  | @noted report _ hreport hnote =>
    obtain ⟨j'', hnote', hwarned⟩ :=
      Analysis.warns_note byWorker (ht.isKey_of_report hw h hreport) j
    rw [hnote] at hnote'
    cases hnote'
    refine ⟨report.call?.toList, ?_, hwarned, ?_⟩
    · rw [calls, List.take_add_one, hreport, List.filterMap_append]
      cases report <;> rfl
    · rw [hwarned]
      cases report with
      | blankKey key => simp [Report.call?, Journal.notice?, Journal.enter]
      | unresolved call caller =>
        by_cases hold : call ∈ j.warned <;>
          simp [Report.call?, Journal.notice?, Journal.enter, hold]
  | @looked top rest walk stack hall hstack hstep =>
    refine ⟨[], ?_, rfl, by simp⟩
    obtain ⟨more, hmore⟩ := (Walk.advances_iff.mpr hstep).prefix_reports
    have hnoted : t.noted = t.walk.reports.length := Nat.le_antisymm ht.noted hall
    simp [calls, ← hmore, hnoted]

end Moves

end OnCourse

end Task

/-! ## Pools -/

namespace Pool

/-- One step of a task that is not done, taken up because fewer tasks before it are under way than
there are workers. -/
inductive Step (conventions : Conventions) (index : Index) (byWorker : Bool) (workers : Nat) :
    Pool → Pool → Prop where
  | advance {before t after j notices t' j' new} : t.isDone = false → busy before < workers →
      t.advance conventions index byWorker j = (t', j', new) →
      Step conventions index byWorker workers ⟨before ++ t :: after, j, notices⟩
        ⟨before ++ t' :: after, j', notices ++ new⟩

/-- Some steps of the tasks, in any order that the workers allow. -/
def Reaches (conventions : Conventions) (index : Index) (byWorker : Bool) (workers : Nat) :
    Pool → Pool → Prop :=
  Relation.ReflTransGen (Step conventions index byWorker workers)

/-- How many steps the tasks have still to take. -/
def remaining (conventions : Conventions) (index : Index) (p : Pool) : Nat :=
  (p.tasks.map (Task.remaining conventions index)).sum

/-- The tasks of some entry points are on course, and the journal, which had warned of the calls
`old`, has warned of those and of the calls that were taken down. -/
structure OnCourse (conventions : Conventions) (index : Index) (roots : List EntryPoint)
    (old : List Datum) (p : Pool) : Prop where
  roots : p.tasks.map (·.root) = roots
  tasks : ∀ t ∈ p.tasks, t.OnCourse conventions index
  firsts : p.journal.warned = old ++ p.firsts
  seen : ∀ call, call ∈ p.journal.warned ↔ call ∈ old ∨ ∃ t ∈ p.tasks, call ∈ t.calls
  nodup : old.Nodup → p.journal.warned.Nodup

section Interleaving

variable {byWorker : Bool} {workers : Nat} {roots : List EntryPoint} {old : List Datum}
  {p p' : Pool} (hw : conventions.WellTyped) (h : index.WellFormed)
include hw h

/-- A run starts on course. -/
theorem OnCourse.start (roots : List EntryPoint) (j : Journal) :
    (start index roots j).OnCourse conventions index roots j.warned where
  roots := by simp [Pool.start, Function.comp_def, Task.root_start]
  tasks t ht := by
    obtain ⟨root, -, rfl⟩ := List.mem_map.mp ht
    exact .start hw h root
  firsts := by simp [Pool.start, Pool.firsts]
  seen call := by simp [Pool.start, Task.calls_start]
  nodup hold := hold

/-- A step of some task is one of its moves. -/
theorem OnCourse.step (hp : p.OnCourse conventions index roots old)
    (hstep : Step conventions index byWorker workers p p') :
    p'.OnCourse conventions index roots old ∧
      p'.remaining conventions index + 1 = p.remaining conventions index := by
  cases hstep with
  | @advance before t after j notices t' j' new hopen hfree hadvance =>
    have ht := hp.tasks t (by simp)
    have hmove := ht.moves hw h hopen hadvance
    obtain ⟨more, hcalls, henter, hnew⟩ := hmove.exists_calls ht hw h
    have hremaining := hmove.remaining ht
    constructor
    · constructor
      case roots =>
        rw [← hp.roots]
        simp [hmove.root_eq]
      case tasks =>
        intro u hu
        rcases List.mem_append.mp hu with hu | hu
        · exact hp.tasks u (List.mem_append_left _ hu)
        · rcases List.mem_cons.mp hu with rfl | hu
          · exact hmove.onCourse ht
          · exact hp.tasks u (List.mem_append_right _ (List.mem_cons_of_mem _ hu))
      case firsts =>
        rw [hnew, hp.firsts]
        simp [Pool.firsts]
      case seen =>
        intro call
        rw [henter, Journal.mem_enter, hp.seen]
        simp only [List.mem_append, List.mem_cons, or_and_right, exists_or, exists_eq_left, hcalls]
        grind
      case nodup =>
        intro hold
        rw [henter]
        exact Journal.nodup_enter (hp.nodup hold) more
    · simp only [Pool.remaining, List.map_append, List.map_cons, List.sum_append, List.sum_cons]
      omega

theorem OnCourse.reaches (hp : p.OnCourse conventions index roots old)
    (hreaches : Reaches conventions index byWorker workers p p') :
    p'.OnCourse conventions index roots old := by
  induction hreaches with
  | refl => exact hp
  | tail _ hstep ih => exact (ih.step hw h hstep).1

variable (byWorker workers) in
/-- No interleaving goes on forever. -/
theorem OnCourse.acc (hp : p.OnCourse conventions index roots old) :
    Acc (fun q p => Step conventions index byWorker workers p q) p := by
  induction hn : p.remaining conventions index using Nat.strong_induction_on generalizing p with
  | _ n ih =>
    refine .intro p fun q hstep => ?_
    obtain ⟨hq, hless⟩ := hp.step hw h hstep
    exact ih _ (by omega) hq rfl

omit hw h in
variable (conventions index byWorker) in
/-- While some task is not done, the first such task has a step. -/
theorem exists_step (hworkers : 1 ≤ workers) (hopen : p.isDone = false) :
    ∃ q, Step conventions index byWorker workers p q := by
  obtain ⟨tasks, j, notices⟩ := p
  have hsome : ∃ t ∈ tasks, (!t.isDone) = true := by
    simpa [isDone] using hopen
  obtain ⟨t, hfirst⟩ := Option.isSome_iff_exists.mp (List.find?_isSome.mpr hsome)
  obtain ⟨hnot, before, after, rfl, hdone⟩ := List.find?_eq_some_iff_append.mp hfirst
  have hfree : busy before < workers := by
    have hnone : before.filter (fun t => !t.isDone) = [] :=
      List.filter_eq_nil_iff.mpr fun u hu => by simpa using hdone u hu
    rw [busy, hnone]
    exact hworkers
  exact ⟨_, .advance (by simpa using hnot) hfree rfl⟩

variable (byWorker workers) in
/-- Every pool leads to one that has no step. -/
theorem OnCourse.exists_reaches (hp : p.OnCourse conventions index roots old) :
    ∃ q, Reaches conventions index byWorker workers p q ∧
      ∀ q', ¬ Step conventions index byWorker workers q q' := by
  induction hp.acc byWorker workers hw h with
  | intro p hacc ih =>
    by_cases hopen : ∃ q, Step conventions index byWorker workers p q
    · obtain ⟨q, hstep⟩ := hopen
      obtain ⟨q', hreaches, hlast⟩ := ih q hstep (hp.step hw h hstep).1
      exact ⟨q', .head hstep hreaches, hlast⟩
    · exact ⟨p, .refl, not_exists.mp hopen⟩

omit hw h in
/-- When all tasks are done, the journal has warned of what the walks report, and of nothing new
besides. -/
theorem OnCourse.mem_warned (hp : p.OnCourse conventions index roots old)
    (hdone : p.isDone = true) {call : Datum} :
    call ∈ p.journal.warned ↔ call ∈ old ∨
      ∃ root ∈ roots, call ∈ Walk.failures conventions index root.signature root.baseFqn := by
  rw [hp.seen, ← hp.roots]
  refine or_congr_right ?_
  have hcalls : ∀ t ∈ p.tasks,
      t.calls = Walk.failures conventions index t.root.signature t.root.baseFqn := fun t ht =>
    ((hp.tasks t ht).of_isDone (List.all_eq_true.mp hdone t ht)).2
  simp only [List.mem_map, exists_exists_and_eq_and]
  exact exists_congr fun t => and_congr_right fun ht => by rw [hcalls t ht]

/-- When all tasks are done, the traces are those of the walks. -/
theorem OnCourse.traces_eq (hp : p.OnCourse conventions index roots old)
    (hdone : p.isDone = true) :
    p.traces = .ok (Table.ofList (roots.map (EntryPoint.traceEntry conventions index))) := by
  have hresults : ∀ tasks : List Task, (∀ t ∈ tasks, t.OnCourse conventions index) →
      (∀ t ∈ tasks, t.isDone = true) → tasks.mapM Task.result =
        .ok ((tasks.map (·.root)).map (EntryPoint.traceEntry conventions index)) := by
    intro tasks hcourse hdone
    induction tasks with
    | nil => rfl
    | cons t tasks ih =>
      obtain ⟨ht, hcourse⟩ := List.forall_mem_cons.mp hcourse
      obtain ⟨hend, hdone⟩ := List.forall_mem_cons.mp hdone
      have hresult : t.result = .ok (t.root.traceEntry conventions index) := by
        rw [Task.result, ht.fault, (ht.of_isDone hend).1]
        rfl
      rw [List.mapM_cons, hresult, ih hcourse hdone]
      rfl
  rw [traces, hresults p.tasks hp.tasks (List.all_eq_true.mp hdone), hp.roots]
  have hfilter := EntryPoint.filter_traceTable hw h roots roots
  rw [EntryPoint.traceTable_self] at hfilter
  exact congrArg Except.ok hfilter

end Interleaving

end Pool

end EntryFlow
