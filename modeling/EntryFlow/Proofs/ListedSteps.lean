import EntryFlow.Proofs.Expansion
import EntryFlow.Proofs.Labels

/-!
# What walks list

A walk lists the methods of the index by their signatures, framework calls by their labels, and a
marker for a key that leads to no method. Only framework calls are terminal and have a caller. This
holds for every index and for all conventions, also for a walk that a fault ends.

## Main definitions

* `Index.Signs`, `Index.Locates`: the signatures of an index and the keys that lead to a method.
* `Walk.MarkerOf`, `Walk.Listed`: the steps that walks from some keys may list.

## Main statements

* `Walk.Lists.advance`: a step of the machine lists such steps.
* `Walk.Lists.run`: all steps of the machine do.
* `Walk.listed_extendAll`: walks from some keys do.
-/

namespace EntryFlow

/-- The text is the signature of a method of the index. -/
def Index.Signs (index : Index) (signature : String) : Prop :=
  ∃ m ∈ index.methodList, m.signature = .ok signature

/-- The key names something, and it leads to a method. -/
def Index.Locates (index : Index) (key : Datum) : Prop :=
  ∃ base, key.walkKey = .ok (some base) ∧ (index.locate? base).isSome

theorem Index.not_locates_of_none {index : Index} {key : Datum} (h : key.walkKey = .ok none) :
    ¬ index.Locates key := by
  rintro ⟨base, hbase, -⟩
  cases h.symm.trans hbase

theorem Index.locates_iff {index : Index} {key : Datum} {base : String}
    (h : key.walkKey = .ok (some base)) : index.Locates key ↔ (index.locate? base).isSome := by
  constructor
  · rintro ⟨base', hbase', hsome⟩
    cases h.symm.trans hbase'
    exact hsome
  · exact fun hsome => ⟨base, h, hsome⟩

namespace Walk

/-- The markers for a key that leads to no method. -/
inductive MarkerOf (key : Datum) : String → Prop where
  | blank : MarkerOf key (blankMarker key)
  | entryPoint : MarkerOf key (key.display ++ entryPointSuffix)
  | unresolved : MarkerOf key ("UNRESOLVED: " ++ key.display)

/-- A step that walks from some keys may list. -/
inductive Listed (conventions : Conventions) (index : Index) (keys : List Datum) : Step → Prop where
  | root {signature : String} : index.Signs signature →
      Listed conventions index keys ⟨signature, none, false⟩
  | called {signature caller : String} : index.Signs signature → index.Signs caller →
      Listed conventions index keys ⟨signature, some caller, false⟩
  | framework {category name call caller : String} : conventions.HasCategory category →
      name ∈ Call.segments call → index.Signs caller →
      Listed conventions index keys ⟨frameworkLabel category name, some caller, true⟩
  | marker {key : Datum} {text : String} : key ∈ keys → ¬ index.Locates key →
      MarkerOf key text → Listed conventions index keys ⟨text, none, true⟩

/-- All steps of a walk are such steps. -/
def Lists (conventions : Conventions) (index : Index) (keys : List Datum) (w : Walk) : Prop :=
  ∀ s ∈ w.trace.steps, Listed conventions index keys s

variable {conventions : Conventions} {index : Index} {keys : List Datum} {w : Walk}

namespace Lists

theorem push (hw : w.Lists conventions index keys) {s : Step}
    (hs : Listed conventions index keys s) : (w.push s).Lists conventions index keys := by
  intro step hstep
  rcases List.mem_append.mp hstep with hold | hnew
  · exact hw step hold
  · rwa [List.mem_singleton.mp hnew]

theorem visit (hw : w.Lists conventions index keys) (base : String) :
    (w.visit base).Lists conventions index keys := by
  rwa [Lists, trace_visit]

/-- Taking down a call lists the method that it is resolved to, or a framework call. -/
theorem record (hw : w.Lists conventions index keys) {call : Datum} {context : Context}
    {resolution : Resolution} (hres : conventions.resolve index call context = .ok resolution)
    {caller : String} (hcaller : index.Signs caller) :
    (w.record call caller resolution).1.Lists conventions index keys := by
  cases resolution with
  | ignored => exact hw
  | unresolved => exact hw
  | framework category name =>
    obtain ⟨text, -, hlast, hcategory⟩ := Conventions.exists_of_resolve_eq_framework hres
    exact hw.push (.framework hcategory (List.mem_of_getLast? hlast) hcaller)
  | method target signature tier =>
    rw [Walk.record]
    split
    · exact hw
    · have htarget : index.Signs signature := ⟨target,
        Conventions.mem_methodList_of_resolve hres, Conventions.signature_of_resolve hres⟩
      exact (hw.visit _).push (.called htarget hcaller)

theorem advance (hw : w.Lists conventions index keys) {top : Frame}
    (htop : top.method ∈ index.methodList) (rest : List Frame) :
    (w.advance conventions index top rest).1.Lists conventions index keys := by
  rw [Walk.advance]
  split
  · exact hw
  · split
    · exact hw
    · exact hw
    · rename_i resolution _ hres
      split
      · exact hw
      · rename_i caller hcaller
        have hrecord := hw.record hres ⟨top.method, htop, hcaller⟩
        split <;> simp_all

end Lists

/-- The frames on a stack are those of methods of the index. -/
theorem Advances.methods {v : Walk} {stack frames : List Frame}
    (h : Advances conventions index w stack v frames)
    (hstack : ∀ f ∈ stack, f.method ∈ index.methodList) :
    ∀ f ∈ frames, f.method ∈ index.methodList := by
  cases h with
  | ended => exact fun f hf => hstack f (List.mem_cons_of_mem _ hf)
  | ignored | unresolved | framework | suppressed =>
    obtain ⟨htop, hrest⟩ := List.forall_mem_cons.mp hstack
    exact List.forall_mem_cons.mpr ⟨htop, hrest⟩
  | entered hres _ _ hinner =>
    obtain ⟨htop, hrest⟩ := List.forall_mem_cons.mp hstack
    refine List.forall_mem_cons.mpr ⟨?_, List.forall_mem_cons.mpr ⟨htop, hrest⟩⟩
    rw [Frame.method_eq hinner]
    exact Conventions.mem_methodList_of_resolve hres

theorem Lists.run (hw : w.Lists conventions index keys) {stack : List Frame}
    (hstack : ∀ f ∈ stack, f.method ∈ index.methodList) :
    (w.run conventions index stack).1.Lists conventions index keys := by
  induction w, stack using run.induct conventions index with
  | case1 w => rwa [run_nil]
  | case2 w top rest v fault hadvance =>
    have hv := hw.advance (hstack top List.mem_cons_self) rest
    rw [hadvance] at hv
    rwa [run_cons_of_error hadvance]
  | case3 w top rest v frames hadvance hlt ih =>
    have hv := hw.advance (hstack top List.mem_cons_self) rest
    rw [hadvance] at hv
    rw [run_cons_of_ok hadvance]
    exact ih hv ((advances_iff.mpr hadvance).methods hstack)

theorem markerOf_missingMarker (w : Walk) (key : Datum) : MarkerOf key (w.missingMarker key) := by
  rw [missingMarker]
  split
  · exact .entryPoint
  · exact .unresolved

theorem methods_of_frame {m : Method} (hm : m ∈ index.methodList) {stack : List Frame}
    (hstack : (Frame.ofMethod index m).map ([·]) = .ok stack) :
    ∀ f ∈ stack, f.method ∈ index.methodList := by
  intro f hf
  obtain ⟨frame, hframe, rfl⟩ := map_eq_ok_iff.mp hstack
  rwa [List.mem_singleton.mp hf, Frame.method_eq hframe]

/-- Before its first call, a walk lists its root, or a marker in its place. -/
theorem Lists.enter (hw : w.Lists conventions index keys) {key : Datum} (hkey : key ∈ keys) :
    (w.enter index key).1.Lists conventions index keys ∧
      ∀ stack, (w.enter index key).2 = .ok stack → ∀ f ∈ stack, f.method ∈ index.methodList := by
  have hnothing : ∀ stack : List Frame, (.ok [] : Except Fault (List Frame)) = .ok stack →
      ∀ f ∈ stack, f.method ∈ index.methodList := by
    intro stack hstack f hf
    cases hstack
    cases hf
  have hfault : ∀ (fault : Fault) (stack : List Frame), .error fault = Except.ok stack →
      ∀ f ∈ stack, f.method ∈ index.methodList := by
    intro fault stack hstack
    cases hstack
  rw [Walk.enter]
  split
  · exact ⟨hw, hfault _⟩
  · rename_i hblank
    exact ⟨hw.push (.marker hkey (Index.not_locates_of_none hblank) .blank), hnothing⟩
  · rename_i base hbase
    split
    · exact ⟨hw, hnothing⟩
    · dsimp only
      split
      · rename_i hnone
        have hlost : ¬ index.Locates key := by simp [Index.locates_iff hbase, hnone]
        exact ⟨(hw.visit base).push (.marker hkey hlost (markerOf_missingMarker _ _)), hnothing⟩
      · rename_i m hm
        have hroot := Index.mem_methodList_of_locate? hm
        have hvisited := (hw.visit base).visit m.baseFqn
        split
        · exact ⟨hvisited, hfault _⟩
        · rename_i v hlisted
          refine ⟨?_, fun _ => methods_of_frame hroot⟩
          split at hlisted
          · obtain ⟨signature, hsignature, rfl⟩ := map_eq_ok_iff.mp hlisted
            exact hvisited.push (.root ⟨m, hroot, hsignature⟩)
          · cases hlisted
            exact hvisited

theorem Lists.extend (hw : w.Lists conventions index keys) {key : Datum} (hkey : key ∈ keys) :
    (w.extend conventions index key).1.Lists conventions index keys := by
  obtain ⟨hlists, hstack⟩ := hw.enter hkey
  rw [extend_eq_enter]
  split
  · rename_i v fault henter
    rwa [henter] at hlists
  · rename_i v stack henter
    rw [henter] at hlists hstack
    exact hlists.run (hstack stack rfl)

theorem Lists.extendAll (hw : w.Lists conventions index keys) {more : List Datum}
    (hmore : more ⊆ keys) : (w.extendAll conventions index more).Lists conventions index keys := by
  induction more generalizing w with
  | nil => exact hw
  | cons key more ih =>
    obtain ⟨hkey, hmore⟩ := List.cons_subset.mp hmore
    exact ih (hw.extend hkey) hmore

/-- Walks from some keys list methods, framework calls and markers. -/
theorem listed_extendAll (conventions : Conventions) (index : Index) (entry : String)
    (keys : List Datum) :
    ∀ s ∈ ((start entry).extendAll conventions index keys).trace.steps,
      Listed conventions index keys s := by
  have hstart : (start entry).Lists conventions index keys := nofun
  exact hstart.extendAll (List.Subset.refl keys)

end Walk

end EntryFlow
