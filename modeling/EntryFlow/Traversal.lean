import EntryFlow.Resolution
import EntryFlow.Trace

/-!
# Depth-first walk from an entry point

A walk lists every method that it reaches once. It keeps a stack of frames, each a method with the
calls that are still to be looked at, so the depth of a chain of calls is no limit. A method that
was visited before, under the same entry point, is neither listed nor expanded again; the call to it
is kept among the suppressed ones.

## Main definitions

* `Walk`: what a walk has visited, listed and reported.
* `Walk.advance`: one step of the stack machine; `Walk.run`: all of them.
* `Walk.extend`: the walk from a key.

## Main statements

* `Walk.measure_advance_lt`: a step lowers the number of methods that are not visited, or keeps it
  and lowers the number of calls and frames.
-/

namespace EntryFlow

/-- What a walk reports besides its trace. -/
inductive Report where
  /-- The key of a walk names nothing. -/
  | blankKey (key : Datum)
  /-- A call of a method could not be resolved. -/
  | unresolved (call : Datum) (caller : String)
  deriving DecidableEq, Repr

/-- The state of the walks from one entry point. -/
structure Walk where
  visited : List String
  trace : Trace
  reports : List Report
  deriving DecidableEq, Repr

/-- A method with the calls that are still to be looked at and with what it can see. -/
structure Frame where
  method : Method
  calls : List Datum
  context : Context

/-- The frame of a method whose calls are all to be looked at. -/
def Frame.ofMethod (index : Index) (m : Method) : Except Fault Frame :=
  (Context.ofMethod index m).map (⟨m, m.callList, ·⟩)

namespace Walk

/-- The walk from an entry point before its first step. -/
def start (entry : String) : Walk := ⟨[], .start entry, []⟩

/-- Mark a base name as visited. -/
def visit (w : Walk) (base : String) : Walk :=
  if base ∈ w.visited then w else { w with visited := base :: w.visited }

/-- List a node. -/
def push (w : Walk) (s : Step) : Walk :=
  { w with trace := { w.trace with steps := w.trace.steps ++ [s] } }

/-- Keep a call whose target is not listed again. -/
def suppress (w : Walk) (caller target : String) : Walk :=
  { w with trace := { w.trace with suppressed := w.trace.suppressed ++ [(caller, target)] } }

/-- Report something. -/
def report (w : Walk) (r : Report) : Walk :=
  { w with reports := w.reports ++ [r] }

/-- Take down what a call of `caller` refers to, and tell the method that is to be entered. -/
def record (w : Walk) (call : Datum) (caller : String) : Resolution → Walk × Option Method
  | .ignored => (w, none)
  | .unresolved => (w.report (.unresolved call caller), none)
  | .framework category name => (w.push ⟨frameworkLabel category name, some caller, true⟩, none)
  | .method target signature _ =>
    if target.baseFqn ∈ w.visited then (w.suppress caller signature, none)
    else ((w.visit target.baseFqn).push ⟨signature, some caller, false⟩, some target)

/-- One step: the next call of the top frame, or its end. -/
def advance (conventions : Conventions) (index : Index) (w : Walk) (top : Frame)
    (rest : List Frame) : Walk × Except Fault (List Frame) :=
  match top.calls with
  | [] => (w, .ok rest)
  | call :: calls =>
    let rest := { top with calls } :: rest
    match conventions.resolve index call top.context with
    | .error fault => (w, .error fault)
    | .ok .ignored => (w, .ok rest)
    | .ok resolution =>
      match top.method.signature with
      | .error fault => (w, .error fault)
      | .ok caller =>
        match w.record call caller resolution with
        | (w, none) => (w, .ok rest)
        | (w, some target) => (w, (Frame.ofMethod index target).map (· :: rest))

/-- How many methods of the index are not visited. -/
def unvisited (index : Index) (w : Walk) : Nat :=
  (index.methodList.filter fun m => m.baseFqn ∉ w.visited).length

/-- How many calls and frames are left. -/
def pending : List Frame → Nat
  | [] => 0
  | frame :: frames => frame.calls.length + 1 + pending frames

@[simp] theorem visited_push (w : Walk) (s : Step) : (w.push s).visited = w.visited := rfl

@[simp] theorem visited_suppress (w : Walk) (caller target : String) :
    (w.suppress caller target).visited = w.visited := rfl

@[simp] theorem visited_report (w : Walk) (r : Report) : (w.report r).visited = w.visited := rfl

theorem mem_visited_visit {w : Walk} {base other : String} :
    other ∈ (w.visit base).visited ↔ other = base ∨ other ∈ w.visited := by
  simp only [visit]
  split <;> simp_all

/-- Visiting a method that was not visited leaves fewer to visit. -/
theorem unvisited_visit_lt {index : Index} {w : Walk} {m : Method} (hm : m ∈ index.methodList)
    (hv : m.baseFqn ∉ w.visited) : (w.visit m.baseFqn).unvisited index < w.unvisited index := by
  simp only [unvisited]
  rw [show (index.methodList.filter fun n => n.baseFqn ∉ (w.visit m.baseFqn).visited) =
      (index.methodList.filter fun n => n.baseFqn ∉ w.visited).filter
        (fun n => n.baseFqn ≠ m.baseFqn) by
    rw [List.filter_filter]
    apply List.filter_congr
    intro n _
    simp [mem_visited_visit]]
  apply List.length_filter_lt_length_iff_exists.2
  exact ⟨m, by simp [hm, hv], by simp⟩

theorem record_eq_none {w w' : Walk} {call : Datum} {caller : String} {resolution : Resolution}
    (h : w.record call caller resolution = (w', none)) : w'.visited = w.visited := by
  cases resolution <;> simp only [record] at h
  · split at h <;> simp_all
    subst h
    rfl
  all_goals simp_all
  all_goals subst h; rfl

theorem record_eq_some {w w' : Walk} {call : Datum} {caller : String} {resolution : Resolution}
    {target : Method} (h : w.record call caller resolution = (w', some target)) :
    (∃ signature tier, resolution = .method target signature tier) ∧
      target.baseFqn ∉ w.visited ∧ w'.visited = (w.visit target.baseFqn).visited := by
  cases resolution <;> simp only [record] at h
  · split at h
    · simp at h
    · rename_i hv
      simp only [Prod.mk.injEq, Option.some.injEq] at h
      obtain ⟨rfl, rfl⟩ := h
      exact ⟨⟨_, _, rfl⟩, hv, rfl⟩
  all_goals simp at h

/-- A step lowers the number of methods that are not visited, or keeps it and lowers the number of
calls and frames. -/
theorem measure_advance_lt {conventions : Conventions} {index : Index} {w w' : Walk} {top : Frame}
    {rest frames : List Frame} (h : w.advance conventions index top rest = (w', .ok frames)) :
    Prod.Lex (· < ·) (· < ·) (w'.unvisited index, pending frames)
      (w.unvisited index, pending (top :: rest)) := by
  have same : ∀ {v : Walk}, v.visited = w.visited → v.unvisited index = w.unvisited index := by
    intro v hv
    simp [unvisited, hv]
  simp only [advance] at h
  split at h
  · cases h
    exact Prod.Lex.right _ (by simp [pending])
  · rename_i call calls hcalls
    have shorter : pending ({ top with calls := calls } :: rest) < pending (top :: rest) := by
      simp [pending, hcalls]
    split at h
    · simp at h
    · cases h
      exact Prod.Lex.right _ shorter
    · rename_i resolution _ hresolution
      split at h
      · simp at h
      · split at h
        · rename_i hrecord
          cases h
          rw [same (record_eq_none hrecord)]
          exact Prod.Lex.right _ shorter
        · rename_i target hrecord
          obtain ⟨⟨signature, tier, rfl⟩, hv, hw⟩ := record_eq_some hrecord
          simp only [Prod.mk.injEq] at h
          obtain ⟨rfl, -⟩ := h
          have hm := Conventions.mem_methodList_of_resolve hresolution
          have := unvisited_visit_lt (w := w) hm hv
          exact Prod.Lex.left _ _ (by simpa [unvisited, hw] using this)

/-- All steps from a stack of frames, up to the first fault. -/
def run (conventions : Conventions) (index : Index) (w : Walk) :
    List Frame → Walk × Option Fault
  | [] => (w, none)
  | top :: rest =>
    match h : w.advance conventions index top rest with
    | (w', .error fault) => (w', some fault)
    | (w', .ok frames) =>
      have := measure_advance_lt h
      run conventions index w' frames
termination_by frames => (w.unvisited index, pending frames)
decreasing_by assumption

end Walk

namespace Index

/-- The first method of that name whose type has that qualified name, or the simple name that the
qualified name ends in. -/
def methodOfOwner? (index : Index) (owner name : String) : Option Method :=
  if owner.isEmpty then none
  else index.methodList.find? fun m =>
    m.name = .text name && (m.typeFqn = .text owner || m.className = .text (Name.simple owner))

/-- The method that a base name refers to: by its key, by declaring type and name, and else by its
name alone. -/
def locate? (index : Index) (base : String) : Option Method :=
  let (owner, name) := Name.ownerAndMember base
  (index.method? base).or ((index.methodOfOwner? owner name).or (index.methodNamed? name))

end Index

/-- The base name of the key of a walk, if it names anything. -/
def Datum.walkKey (key : Datum) : Except Fault (Option String) :=
  match key with
  | .null => .ok none
  | .text s => .ok (Call.callee? s)
  | _ => .error .noTextOperation

namespace Walk

/-- The marker of a key that names nothing. -/
def blankMarker (key : Datum) : String :=
  "ERROR: Null base FQN for " ++ key.display

/-- The marker of a key that has no record: an entry point if nothing is listed yet. -/
def missingMarker (w : Walk) (key : Datum) : String :=
  if w.trace.steps.isEmpty then key.display ++ entryPointSuffix else "UNRESOLVED: " ++ key.display

/-- Visit a method and all that it reaches. The method is listed if nothing is listed yet. -/
def fromMethod (conventions : Conventions) (index : Index) (w : Walk) (m : Method) :
    Walk × Option Fault :=
  let w := w.visit m.baseFqn
  let listed := if w.trace.steps.isEmpty then
      m.signature.map fun signature => w.push ⟨signature, none, false⟩
    else .ok w
  match listed with
  | .error fault => (w, some fault)
  | .ok w =>
    match Frame.ofMethod index m with
    | .error fault => (w, some fault)
    | .ok frame => w.run conventions index [frame]

/-- Visit the method that a key names, with or without a parameter list, and all that it
reaches. -/
def extend (conventions : Conventions) (index : Index) (w : Walk) (key : Datum) :
    Walk × Option Fault :=
  match key.walkKey with
  | .error fault => (w, some fault)
  | .ok none => ((w.report (.blankKey key)).push ⟨blankMarker key, none, true⟩, none)
  | .ok (some base) =>
    if base ∈ w.visited then (w, none)
    else
      let w := w.visit base
      match index.locate? base with
      | none => (w.push ⟨w.missingMarker key, none, true⟩, none)
      | some m => w.fromMethod conventions index m

end Walk

end EntryFlow
