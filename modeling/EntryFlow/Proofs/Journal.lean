import EntryFlow.Analysis
import EntryFlow.Proofs.WellTyped

/-!
# What an analysis yields and what it warns of

An analysis writes into a journal on the way. What it yields in every journal alike is a result of
the corpus alone, whatever was analysed before. What it adds to the calls warned of are the calls
that it reports, each once.

## Main definitions

* `Analysis.Yields`: a computation ends without a fault, with the same result in every journal.
* `Analysis.EndsIn`: a computation ends in the same fault in every journal.
* `Journal.enter`: the calls warned of when some more are reported.
* `Analysis.Warns`: a computation yields a result, and some calls are reported.

## Main statements

* `Analysis.warns_note`: a report about a call that can be a key is taken down without a fault.
* `Analysis.Warns.bind`, `Analysis.Warns.mapM_map`: what computations report adds up.
-/

namespace EntryFlow

/-- The call that a report is about. -/
def Report.call? : Report → Option Datum
  | .blankKey _ => none
  | .unresolved call _ => some call

namespace Journal

/-- The calls warned of after some more calls were reported. -/
def enter (warned calls : List Datum) : List Datum :=
  calls.foldl (fun warned call => if call ∈ warned then warned else warned ++ [call]) warned

theorem enter_append (warned calls more : List Datum) :
    enter warned (calls ++ more) = enter (enter warned calls) more :=
  List.foldl_append

theorem mem_enter {warned calls : List Datum} {call : Datum} :
    call ∈ enter warned calls ↔ call ∈ warned ∨ call ∈ calls := by
  have hstep : ∀ (seen : List Datum) other,
      call ∈ (if other ∈ seen then seen else seen ++ [other]) ↔ call ∈ seen ∨ other = call := by
    intro seen other
    split
    · rename_i hold
      refine ⟨.inl, ?_⟩
      rintro (h | rfl)
      · exact h
      · exact hold
    · simp [eq_comm]
  rw [enter, iff_foldl (fun seen => call ∈ seen) (fun other => other = call) hstep]
  simp

theorem nodup_enter {warned : List Datum} (h : warned.Nodup) (calls : List Datum) :
    (enter warned calls).Nodup :=
  List.foldlRecOn calls _ h fun _ hseen call _ => Table.nodup_enter hseen call

end Journal

namespace Analysis

variable {α β : Type}

/-- In every journal the computation ends without a fault and gives `a`. -/
def Yields (x : Analysis α) (a : α) : Prop :=
  ∀ j, ∃ j', x.run j = .ok a j'

/-- In every journal the computation ends without a fault and gives `a`, and `calls` are reported on
the way. -/
def Warns (x : Analysis α) (a : α) (calls : List Datum) : Prop :=
  ∀ j, ∃ j', x.run j = .ok a j' ∧ j'.warned = Journal.enter j.warned calls

namespace Warns

theorem yields {x : Analysis α} {a : α} {calls : List Datum} (h : Warns x a calls) :
    Yields x a := by
  intro j
  obtain ⟨j', hj, -⟩ := h j
  exact ⟨j', hj⟩

theorem pure (a : α) : Warns (Pure.pure a) a [] := fun j => ⟨j, rfl, rfl⟩

theorem bind {x : Analysis α} {f : α → Analysis β} {a : α} {b : β} {calls more : List Datum}
    (hx : Warns x a calls) (hf : Warns (f a) b more) : Warns (x >>= f) b (calls ++ more) := by
  intro j
  obtain ⟨j', hj, hwarned⟩ := hx j
  obtain ⟨j'', hj', hwarned'⟩ := hf j'
  refine ⟨j'', ?_, ?_⟩
  · rw [EStateM.run_bind, hj]
    exact hj'
  · rw [hwarned', hwarned, Journal.enter_append]

/-- Nothing is reported before the rest. -/
theorem quiet_bind {x : Analysis α} {f : α → Analysis β} {a : α} {b : β} {calls : List Datum}
    (hx : Warns x a []) (hf : Warns (f a) b calls) : Warns (x >>= f) b calls :=
  hx.bind hf

/-- Nothing is reported in the rest. -/
theorem bind_quiet {x : Analysis α} {f : α → Analysis β} {a : α} {b : β} {calls : List Datum}
    (hx : Warns x a calls) (hf : Warns (f a) b []) : Warns (x >>= f) b calls := by
  have hall := hx.bind hf
  rwa [List.append_nil] at hall

theorem log (level : Level) (text : String) (ofWorker : Bool) :
    Warns (Analysis.log level text ofWorker) () [] :=
  fun _ => ⟨_, rfl, rfl⟩

/-- What is done about a fault does not matter where there is none. -/
theorem tryCatch {x : Analysis α} {a : α} {calls : List Datum} (h : Warns x a calls)
    (handler : Fault → Analysis α) : Warns (tryCatchThe Fault x handler) a calls := by
  intro j
  obtain ⟨j', hj, hwarned⟩ := h j
  have happly : x j = .ok a j' := hj
  refine ⟨j', ?_, hwarned⟩
  change EStateM.tryCatch x handler j = _
  rw [EStateM.tryCatch, happly]

theorem ofResult {x : Except Fault α} {a : α} (h : x = .ok a) :
    Warns (Analysis.ofResult x) a [] := by
  subst h
  exact .pure a

theorem forM {f : α → Analysis PUnit} {calls : α → List Datum} {xs : List α}
    (h : ∀ x ∈ xs, Warns (f x) ⟨⟩ (calls x)) : Warns (xs.forM f) ⟨⟩ (xs.flatMap calls) := by
  induction xs with
  | nil => exact .pure _
  | cons x xs ih =>
    obtain ⟨hx, hxs⟩ := List.forall_mem_cons.mp h
    rw [List.flatMap_cons]
    exact hx.bind (ih hxs)

/-- A loop that is never left early and reports nothing. -/
theorem forIn {f : α → PUnit → Analysis (ForInStep PUnit)} {xs : List α}
    (h : ∀ x ∈ xs, Warns (f x ⟨⟩) (.yield ⟨⟩) []) : Warns (ForIn.forIn xs ⟨⟩ f) ⟨⟩ [] := by
  induction xs with
  | nil => exact .pure _
  | cons x xs ih =>
    obtain ⟨hx, hxs⟩ := List.forall_mem_cons.mp h
    rw [List.forIn_cons]
    exact hx.quiet_bind (ih hxs)

theorem mapM_map {f : α → Analysis β} {g : α → β} {calls : α → List Datum} {xs : List α}
    (h : ∀ x ∈ xs, Warns (f x) (g x) (calls x)) :
    Warns (xs.mapM f) (xs.map g) (xs.flatMap calls) := by
  induction xs with
  | nil => exact .pure _
  | cons x xs ih =>
    obtain ⟨hx, hxs⟩ := List.forall_mem_cons.mp h
    rw [List.mapM_cons, List.flatMap_cons]
    exact hx.bind ((ih hxs).bind_quiet (.pure _))

end Warns

/-- In every journal the computation ends in `fault`. -/
def EndsIn (x : Analysis α) (fault : Fault) : Prop :=
  ∀ j, ∃ j', x.run j = .error fault j'

namespace EndsIn

variable {fault : Fault}

theorem throw (fault : Fault) : EndsIn (MonadExcept.throw fault : Analysis α) fault :=
  fun j => ⟨j, rfl⟩

theorem bind {x : Analysis α} (hx : EndsIn x fault) (f : α → Analysis β) :
    EndsIn (x >>= f) fault := by
  intro j
  obtain ⟨j', hj⟩ := hx j
  refine ⟨j', ?_⟩
  rw [EStateM.run_bind, hj]

theorem of_bind {x : Analysis α} {f : α → Analysis β} {a : α} (hx : Yields x a)
    (hf : EndsIn (f a) fault) : EndsIn (x >>= f) fault := by
  intro j
  obtain ⟨j', hj⟩ := hx j
  obtain ⟨j'', hj'⟩ := hf j'
  refine ⟨j'', ?_⟩
  rw [EStateM.run_bind, hj]
  exact hj'

/-- Computations one after the other fail with the first of them that fails. -/
theorem mapM {f : α → Analysis β} {before after : List α} {x : α}
    (hbefore : ∀ y ∈ before, ∃ b, Yields (f y) b) (hx : EndsIn (f x) fault) :
    EndsIn ((before ++ x :: after).mapM f) fault := by
  induction before with
  | nil =>
    rw [List.nil_append, List.mapM_cons]
    exact hx.bind _
  | cons y before ih =>
    obtain ⟨⟨b, hy⟩, hbefore⟩ := List.forall_mem_cons.mp hbefore
    rw [List.cons_append, List.mapM_cons]
    exact .of_bind hy ((ih hbefore).bind _)

end EndsIn

/-- A call that was warned of is not warned of again. -/
theorem run_note_of_mem (byWorker : Bool) {call : Datum} (caller : String) {j : Journal}
    (hkey : call.isKey) (h : call ∈ j.warned) :
    (note byWorker (.unresolved call caller)).run j = .ok () j := by
  simp only [note, hkey, Bool.not_true, Bool.false_eq_true, if_false]
  rw [EStateM.run_bind, EStateM.run_get]
  simp [h]

/-- A call that is new is warned of. -/
theorem run_note_of_not_mem (byWorker : Bool) {call : Datum} (caller : String) {j : Journal}
    (hkey : call.isKey) (h : call ∉ j.warned) :
    ∃ log, (note byWorker (.unresolved call caller)).run j = .ok () ⟨j.warned ++ [call], log⟩ := by
  simp only [note, hkey, Bool.not_true, Bool.false_eq_true, if_false]
  rw [EStateM.run_bind, EStateM.run_get]
  let warning : LogRecord :=
    { level := .warning, text := unresolvedWarning call caller, ofWorker := byWorker }
  refine ⟨j.log ++ [warning], ?_⟩
  simp [h, log, warning]

/-- Taking down a report fails only if it is about a call that cannot be a key. -/
theorem warns_note (byWorker : Bool) {r : Report} (hr : ∀ call ∈ r.call?, call.isKey) :
    Warns (note byWorker r) () r.call?.toList := by
  cases r with
  | blankKey key => exact .log _ _ _
  | unresolved call caller =>
    intro j
    have hkey := hr call rfl
    by_cases hold : call ∈ j.warned
    · exact ⟨j, run_note_of_mem byWorker caller hkey hold,
        by simp [Journal.enter, Report.call?, hold]⟩
    · obtain ⟨log, hnote⟩ := run_note_of_not_mem byWorker caller hkey hold
      exact ⟨_, hnote, by simp [Journal.enter, Report.call?, hold]⟩

end Analysis

end EntryFlow
