import EntryFlow.Proofs.Progress
import Mathlib.Logic.Relation

/-!
# Call sites

A call site is a call at its place in a method together with what it refers to there. The sites of
the methods of an index are its call graph: which method calls which, and which methods can be
reached from a method. None of the definitions here mentions a walk.

## Main definitions

* `CallSite`, `Method.sites`: the calls of a method, each with its resolution.
* `CallSite.edge?`, `CallSite.leaf?`, `CallSite.report?`: what a site contributes to a trace.
* `Method.Calls`, `Method.Reaches`: the call graph and what can be reached in it.

## Main statements

* `Method.mem_sites_iff`: the sites of a method are its calls with their resolutions.
* `Method.map_call_sites`: over a well-formed index every call of a method has its site.
-/

namespace EntryFlow

/-- A call of the method with signature `caller`, and what it is resolved to. -/
structure CallSite where
  caller : String
  call : Datum
  resolution : Resolution

namespace CallSite

/-- The caller and the label of the target, for a site that has a target. -/
def edge? (s : CallSite) : Option (String × String) :=
  s.resolution.label?.map (s.caller, ·)

/-- The leaf that stands for a framework call. -/
def leaf? (s : CallSite) : Option Step :=
  match s.resolution with
  | .framework category name => some ⟨frameworkLabel category name, some s.caller, true⟩
  | _ => none

/-- The report about a call that could not be resolved. -/
def report? (s : CallSite) : Option Report :=
  match s.resolution with
  | .unresolved => some (.unresolved s.call s.caller)
  | _ => none

end CallSite

section Definitions

variable (conventions : Conventions) (index : Index)

/-- The sites of some calls that `caller` makes in a context, one for each call that has a
resolution. -/
def sitesOf (caller : String) (context : Context) (calls : List Datum) : List CallSite :=
  calls.filterMap fun call =>
    (conventions.resolve index call context).toOption.map (⟨caller, call, ·⟩)

/-- The sites of a method in the order of its calls. -/
def Method.sites (m : Method) : List CallSite :=
  match m.signature, Context.ofMethod index m with
  | .ok caller, .ok context => sitesOf conventions index caller context m.callList
  | _, _ => []

/-- Some call of `m` is resolved to the method `n`. -/
def Method.Calls (m n : Method) : Prop :=
  ∃ s ∈ m.sites conventions index, s.resolution.target? = some n

/-- There is a chain of calls from `m` to `n`. -/
def Method.Reaches : Method → Method → Prop :=
  Relation.ReflTransGen (Method.Calls conventions index)

end Definitions

variable {conventions : Conventions} {index : Index}

theorem sitesOf_cons {caller : String} {context : Context} {call : Datum} {calls : List Datum}
    {resolution : Resolution} (h : conventions.resolve index call context = .ok resolution) :
    sitesOf conventions index caller context (call :: calls) =
      ⟨caller, call, resolution⟩ :: sitesOf conventions index caller context calls := by
  simp [sitesOf, h, Except.toOption]

theorem mem_sitesOf_iff {caller : String} {context : Context} {calls : List Datum}
    {s : CallSite} :
    s ∈ sitesOf conventions index caller context calls ↔
      s.caller = caller ∧ s.call ∈ calls ∧
        conventions.resolve index s.call context = .ok s.resolution := by
  constructor
  · intro hs
    obtain ⟨call, hcall, hs⟩ := List.mem_filterMap.mp hs
    cases hres : conventions.resolve index call context with
    | error fault => simp [hres, Except.toOption] at hs
    | ok resolution =>
      simp only [hres, Except.toOption, Option.map_some, Option.some.injEq] at hs
      subst hs
      exact ⟨rfl, hcall, hres⟩
  · rintro ⟨rfl, hcall, hres⟩
    refine List.mem_filterMap.mpr ⟨s.call, hcall, ?_⟩
    simp [hres, Except.toOption]

theorem Frame.method_eq {m : Method} {frame : Frame} (h : ofMethod index m = .ok frame) :
    frame.method = m := by
  unfold ofMethod at h
  cases hcontext : Context.ofMethod index m with
  | error fault => simp [hcontext, Except.map] at h
  | ok context =>
    simp only [hcontext, Except.map, Except.ok.injEq] at h
    rw [← h]

/-- What a frame is to look at are the sites of its method. -/
theorem Method.sites_eq_of_frame (conventions : Conventions) {m : Method} {caller : String}
    {frame : Frame} (hcaller : m.signature = .ok caller)
    (hframe : Frame.ofMethod index m = .ok frame) :
    m.sites conventions index = sitesOf conventions index caller frame.context frame.calls ∧
      frame.method = m := by
  unfold Frame.ofMethod at hframe
  cases hcontext : Context.ofMethod index m with
  | error fault => simp [hcontext, Except.map] at hframe
  | ok context =>
    simp only [hcontext, Except.map, Except.ok.injEq] at hframe
    subst hframe
    simp [sites, hcaller, hcontext]

/-- The sites of a method are its calls with what they are resolved to in its context. -/
theorem Method.mem_sites_iff {m : Method} {s : CallSite} :
    s ∈ m.sites conventions index ↔ m.signature = .ok s.caller ∧ s.call ∈ m.callList ∧
      ∃ context, Context.ofMethod index m = .ok context ∧
        conventions.resolve index s.call context = .ok s.resolution := by
  unfold sites
  split
  · rename_i caller context hcaller hcontext
    rw [mem_sitesOf_iff, hcaller, hcontext]
    simp [eq_comm]
  · rename_i hnone
    constructor
    · exact fun hs => absurd hs List.not_mem_nil
    · rintro ⟨hcaller, -, context, hcontext, -⟩
      exact absurd hcontext (hnone _ _ hcaller)

theorem Method.Calls.mem_methodList {m n : Method} (h : m.Calls conventions index n) :
    n ∈ index.methodList := by
  obtain ⟨⟨caller, call, resolution⟩, hs, htarget⟩ := h
  obtain ⟨-, -, context, -, hres⟩ := Method.mem_sites_iff.mp hs
  cases resolution with
  | method target signature tier =>
    cases htarget
    exact Conventions.mem_methodList_of_resolve hres
  | framework | ignored | unresolved => cases htarget

theorem Method.Reaches.mem_methodList {m n : Method} (h : m.Reaches conventions index n)
    (hm : m ∈ index.methodList) : n ∈ index.methodList := by
  cases h with
  | refl => exact hm
  | tail _ hcalls => exact hcalls.mem_methodList

/-- Over a well-formed index every call of a method has its site. -/
theorem Method.map_call_sites (hw : conventions.WellTyped) (h : index.WellFormed) {m : Method}
    (hm : m ∈ index.methodList) : (m.sites conventions index).map (·.call) = m.callList := by
  have hwell := h.wellTyped_of_mem hm
  obtain ⟨parameters, hcaller⟩ := Method.exists_signature hwell
  obtain ⟨context, hcontext, hc⟩ := Context.gives_ofMethod h hwell
  simp only [sites, hcaller, hcontext]
  have hall : ∀ calls : List Datum, (∀ call ∈ calls, call.isOptionalText) → ∀ caller,
      (sitesOf conventions index caller context calls).map (·.call) = calls := by
    intro calls hcalls caller
    induction calls with
    | nil => rfl
    | cons call calls ih =>
      obtain ⟨hcall, hcalls⟩ := List.forall_mem_cons.mp hcalls
      obtain ⟨resolution, hres, -⟩ := Conventions.total_resolve hw h hc hcall
      rw [sitesOf_cons hres, List.map_cons, ih hcalls]
  exact hall m.callList hwell.calls _

end EntryFlow
