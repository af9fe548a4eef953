import EntryFlow.Proofs.Recursion

/-!
# Walks over well-typed corpora

On a well-formed index no step of a walk fails: there is a step from every stack that is not empty,
and it leads to frames of the same kind. So every walk comes to an end without a fault, and the
recursive walk has exactly one outcome.

## Main definitions

* `Frame.WellTyped`: frames of well-typed methods.

## Main statements

* `Walk.exists_advances`, `Walk.Advances.wellTyped`: progress and preservation.
* `Walk.exists_run`: the machine empties every stack.
* `Walk.extend_follows`: the walk from a key and the recursive walk from it have the same outcome.
-/

namespace EntryFlow

/-- A frame of a well-typed method in a well-typed context. -/
structure Frame.WellTyped (frame : Frame) : Prop where
  method : frame.method.WellTyped
  calls : ∀ call ∈ frame.calls, call.isOptionalText
  context : frame.context.WellTyped

theorem Frame.gives_ofMethod {index : Index} (h : index.WellFormed) {m : Method}
    (hm : m.WellTyped) : Gives (ofMethod index m) WellTyped :=
  (Context.gives_ofMethod h hm).map fun _ hcontext => ⟨hm, hm.calls, hcontext⟩

/-- What is left of a frame after its next call was looked at. -/
theorem Frame.WellTyped.tail {m : Method} {call : Datum} {calls : List Datum} {context : Context}
    (h : Frame.WellTyped ⟨m, call :: calls, context⟩) : Frame.WellTyped ⟨m, calls, context⟩ :=
  ⟨h.method, fun c hc => h.calls c (List.mem_cons_of_mem _ hc), h.context⟩

theorem Index.mem_methodList_of_locate? {index : Index} {base : String} {m : Method}
    (h : index.locate? base = some m) : m ∈ index.methodList := by
  simp only [locate?, Option.or_eq_some_iff] at h
  rcases h with h | ⟨-, h | ⟨-, h⟩⟩
  · exact mem_methodList_of_method? h
  · unfold methodOfOwner? at h
    split at h
    · cases h
    · exact List.mem_of_find?_eq_some h
  · exact List.mem_of_find?_eq_some h

/-- The base name of a method leads to that method. -/
theorem Index.WellFormed.locate?_baseFqn {index : Index} (h : index.WellFormed) {m : Method}
    (hm : m ∈ index.methodList) : index.locate? m.baseFqn = some m := by
  have hfound := h.method?_eq_some_iff.mpr ⟨hm, rfl⟩
  simp [locate?, hfound]

namespace Walk

variable {conventions : Conventions} {index : Index}

section WellFormed

variable (hw : conventions.WellTyped) (h : index.WellFormed)
include hw h

/-- There is a step from every stack that is not empty. -/
theorem exists_advances (w : Walk) {top : Frame} (htop : top.WellTyped) (rest : List Frame) :
    ∃ v frames, Advances conventions index w (top :: rest) v frames := by
  obtain ⟨m, calls, context⟩ := top
  cases calls with
  | nil => exact ⟨_, _, .ended⟩
  | cons call calls =>
    obtain ⟨resolution, hres, -⟩ :=
      Conventions.total_resolve hw h htop.context (htop.calls call List.mem_cons_self)
    obtain ⟨parameters, hcaller⟩ := Method.exists_signature htop.method
    cases resolution with
    | ignored => exact ⟨_, _, .ignored hres⟩
    | unresolved => exact ⟨_, _, .unresolved hres hcaller⟩
    | framework category name => exact ⟨_, _, .framework hres hcaller⟩
    | method target signature tier =>
      by_cases hold : target.baseFqn ∈ w.visited
      · exact ⟨_, _, .suppressed hres hcaller hold⟩
      · have htarget := h.wellTyped_of_mem (Conventions.mem_methodList_of_resolve hres)
        obtain ⟨inner, hinner, -⟩ := Frame.gives_ofMethod h htarget
        exact ⟨_, _, .entered hres hcaller hold hinner⟩

omit hw in
theorem Advances.wellTyped {w v : Walk} {stack frames : List Frame}
    (hstep : Advances conventions index w stack v frames) (hstack : ∀ f ∈ stack, f.WellTyped) :
    ∀ f ∈ frames, f.WellTyped := by
  have hrest : ∀ {m call calls context rest}, (∀ f ∈ ⟨m, call :: calls, context⟩ :: rest,
      Frame.WellTyped f) → ∀ f ∈ ⟨m, calls, context⟩ :: rest, f.WellTyped := by
    intro m call calls context rest hall
    obtain ⟨htop, hrest⟩ := List.forall_mem_cons.mp hall
    exact List.forall_mem_cons.mpr ⟨htop.tail, hrest⟩
  cases hstep with
  | ended => exact (List.forall_mem_cons.mp hstack).2
  | ignored | unresolved | framework | suppressed => exact hrest hstack
  | entered hres _ _ hinner =>
    have htarget := h.wellTyped_of_mem (Conventions.mem_methodList_of_resolve hres)
    refine List.forall_mem_cons.mpr ⟨?_, hrest hstack⟩
    obtain ⟨frame, hframe, hwell⟩ := Frame.gives_ofMethod h htarget
    rw [hframe] at hinner
    cases hinner
    exact hwell

/-- The machine empties every stack of well-typed frames. -/
theorem exists_run (w : Walk) {stack : List Frame} (hstack : ∀ f ∈ stack, f.WellTyped) :
    ∃ w', w.run conventions index stack = (w', none) := by
  induction w, stack using run.induct conventions index with
  | case1 w => exact ⟨w, run_nil w⟩
  | case2 w top rest v fault hadvance =>
    obtain ⟨_, _, hstep⟩ := exists_advances hw h w (hstack top List.mem_cons_self) rest
    rw [hstep.advance_eq] at hadvance
    cases hadvance
  | case3 w top rest v frames hadvance hlt ih =>
    rw [run_cons_of_ok hadvance]
    exact ih ((advances_iff.mpr hadvance).wellTyped h hstack)

/-- The walk from a key that is a text or missing ends without a fault, in any state. -/
theorem exists_extend (w : Walk) {key : Datum} (hkey : key.isOptionalText) :
    ∃ w', w.extend conventions index key = (w', none) := by
  have hbase : ∃ base?, key.walkKey = .ok base? := by
    cases key with
    | null | text => exact ⟨_, rfl⟩
    | bool | int | float | list | object => simp [Datum.isOptionalText] at hkey
  obtain ⟨base?, hbase⟩ := hbase
  cases base? with
  | none => exact ⟨_, (Follows.blank hbase).extend_eq⟩
  | some base =>
    by_cases hold : base ∈ w.visited
    · exact ⟨_, (Follows.known hbase hold).extend_eq⟩
    · cases hm : index.locate? base with
      | none => exact ⟨_, (Follows.missing hbase hold hm).extend_eq⟩
      | some m =>
        have hmethod := h.wellTyped_of_mem (Index.mem_methodList_of_locate? hm)
        obtain ⟨frame, hframe, hwell⟩ := Frame.gives_ofMethod h hmethod
        obtain ⟨parameters, hsignature⟩ := Method.exists_signature hmethod
        have hrun := fun v => exists_run hw h v (List.forall_mem_singleton.mpr hwell)
        rw [extend_of_locate? hbase hold hm]
        by_cases hsteps : (w.visit base).trace.steps = []
        · rw [fromMethod_of_nil hsteps hsignature hframe]
          exact hrun _
        · rw [fromMethod_of_ne_nil hsteps hframe]
          exact hrun _

end WellFormed

/-- Over a well-typed corpus the walk from any key, in any state, ends without a fault where the
recursive walk from that key leads, and the recursive walk leads nowhere else. -/
theorem extend_follows {types : List TypeRecord} (htypes : Corpus.WellTyped types)
    (hindex : Index.build types = .ok index) (hconventions : conventions.WellTyped) (w : Walk)
    {key : Datum} (hkey : key.isOptionalText) :
    ∃ w', w.extend conventions index key = (w', none) ∧
      ∀ v, Follows conventions index w key v ↔ v = w' := by
  obtain ⟨w', hw'⟩ :=
    exists_extend hconventions (Index.wellFormed_of_build htypes hindex) w hkey
  refine ⟨w', hw', fun v => ?_⟩
  rw [← extend_eq_none_iff, hw']
  simp [eq_comm]

/-- A walk that goes on after another one, from a key that the first one did not come to. -/
theorem extend_follows_sample :
    ∃ w', (((start "entry").visit "app.Shop.buy").suppress "a" "b").extend .default
        (Index.ofTypes Corpus.sample) (.text "app.Stock.take(Item)") = (w', none) ∧
      ∀ v, Follows .default (Index.ofTypes Corpus.sample)
        (((start "entry").visit "app.Shop.buy").suppress "a" "b") (.text "app.Stock.take(Item)") v ↔
          v = w' :=
  extend_follows (show Corpus.WellTyped Corpus.sample by decide)
    (Index.build_eq_ofTypes (by decide)) (by decide) _ (by decide)

end Walk

end EntryFlow
