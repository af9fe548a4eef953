import EntryFlow.Proofs.Totality
import EntryFlow.Traversal

/-!
# The walk as a recursion

A walk keeps a stack of frames with calls that are still to be looked at. This module states the
same walk as a recursion over the calls of a method, which goes into a method before it looks at the
next call, and proves that the stack machine does nothing else.

## Main definitions

* `Walk.Advances`: what one step of the stack machine can do, one rule for each outcome.
* `Walk.Explores`: the recursive walk over the calls of a frame, with the same outcomes.
* `Walk.Follows`: the recursive walk from a key.

## Main statements

* `Walk.run_eq_none_iff`: the machine empties a stack exactly as the recursion goes through its
  frames, top first.
* `Walk.extend_eq_none_iff`: the walk from a key is the recursive walk from it.
-/

namespace EntryFlow.Walk

section Rules

variable (conventions : Conventions) (index : Index)

/-- One step of the stack machine. Either the calls of the top frame are used up, or its next call
has a resolution and is taken down accordingly. -/
inductive Advances : Walk → List Frame → Walk → List Frame → Prop where
  | ended {w m context rest} : Advances w (⟨m, [], context⟩ :: rest) w rest
  | ignored {w m call calls context rest} :
      conventions.resolve index call context = .ok .ignored →
      Advances w (⟨m, call :: calls, context⟩ :: rest) w (⟨m, calls, context⟩ :: rest)
  | unresolved {w m call calls context rest caller} :
      conventions.resolve index call context = .ok .unresolved → m.signature = .ok caller →
      Advances w (⟨m, call :: calls, context⟩ :: rest)
        (w.report (.unresolved call caller)) (⟨m, calls, context⟩ :: rest)
  | framework {w m call calls context rest caller category name} :
      conventions.resolve index call context = .ok (.framework category name) →
      m.signature = .ok caller →
      Advances w (⟨m, call :: calls, context⟩ :: rest)
        (w.push ⟨frameworkLabel category name, some caller, true⟩) (⟨m, calls, context⟩ :: rest)
  | suppressed {w m call calls context rest caller signature target tier} :
      conventions.resolve index call context = .ok (.method target signature tier) →
      m.signature = .ok caller → target.baseFqn ∈ w.visited →
      Advances w (⟨m, call :: calls, context⟩ :: rest)
        (w.suppress caller signature) (⟨m, calls, context⟩ :: rest)
  | entered {w m call calls context rest caller signature target tier inner} :
      conventions.resolve index call context = .ok (.method target signature tier) →
      m.signature = .ok caller → target.baseFqn ∉ w.visited →
      Frame.ofMethod index target = .ok inner →
      Advances w (⟨m, call :: calls, context⟩ :: rest)
        ((w.visit target.baseFqn).push ⟨signature, some caller, false⟩)
        (inner :: ⟨m, calls, context⟩ :: rest)

/-- The recursive walk over the calls of a frame, in order. A logging call does nothing, a call that
could not be resolved is reported, a framework call is listed as a leaf, a call of a visited method
is suppressed, and any other method is marked, listed and gone into before the next call. -/
inductive Explores : Walk → Frame → Walk → Prop where
  | done {w m context} : Explores w ⟨m, [], context⟩ w
  | ignored {w w' m call calls context} :
      conventions.resolve index call context = .ok .ignored →
      Explores w ⟨m, calls, context⟩ w' →
      Explores w ⟨m, call :: calls, context⟩ w'
  | unresolved {w w' m call calls context caller} :
      conventions.resolve index call context = .ok .unresolved → m.signature = .ok caller →
      Explores (w.report (.unresolved call caller)) ⟨m, calls, context⟩ w' →
      Explores w ⟨m, call :: calls, context⟩ w'
  | framework {w w' m call calls context caller category name} :
      conventions.resolve index call context = .ok (.framework category name) →
      m.signature = .ok caller →
      Explores (w.push ⟨frameworkLabel category name, some caller, true⟩) ⟨m, calls, context⟩ w' →
      Explores w ⟨m, call :: calls, context⟩ w'
  | suppressed {w w' m call calls context caller signature target tier} :
      conventions.resolve index call context = .ok (.method target signature tier) →
      m.signature = .ok caller → target.baseFqn ∈ w.visited →
      Explores (w.suppress caller signature) ⟨m, calls, context⟩ w' →
      Explores w ⟨m, call :: calls, context⟩ w'
  | entered {w v w' m call calls context caller signature target tier inner} :
      conventions.resolve index call context = .ok (.method target signature tier) →
      m.signature = .ok caller → target.baseFqn ∉ w.visited →
      Frame.ofMethod index target = .ok inner →
      Explores ((w.visit target.baseFqn).push ⟨signature, some caller, false⟩) inner v →
      Explores v ⟨m, calls, context⟩ w' →
      Explores w ⟨m, call :: calls, context⟩ w'

/-- The recursive walk from a key. A key that names nothing and a key without a record leave a
marker, a key that was visited does nothing; else the method is marked, listed if nothing is listed
yet, and explored. -/
inductive Follows (w : Walk) (key : Datum) : Walk → Prop where
  | blank : key.walkKey = .ok none →
      Follows w key ((w.report (.blankKey key)).push ⟨blankMarker key, none, true⟩)
  | known {base} : key.walkKey = .ok (some base) → base ∈ w.visited → Follows w key w
  | missing {base} : key.walkKey = .ok (some base) → base ∉ w.visited →
      index.locate? base = none →
      Follows w key ((w.visit base).push ⟨(w.visit base).missingMarker key, none, true⟩)
  | first {base signature m frame w'} :
      key.walkKey = .ok (some base) → base ∉ w.visited → index.locate? base = some m →
      w.trace.steps = [] → m.signature = .ok signature → Frame.ofMethod index m = .ok frame →
      Explores conventions index
        (((w.visit base).visit m.baseFqn).push ⟨signature, none, false⟩) frame w' →
      Follows w key w'
  | further {base m frame w'} :
      key.walkKey = .ok (some base) → base ∉ w.visited → index.locate? base = some m →
      w.trace.steps ≠ [] → Frame.ofMethod index m = .ok frame →
      Explores conventions index ((w.visit base).visit m.baseFqn) frame w' →
      Follows w key w'

/-- The frames of a stack are explored one after the other, top first. -/
def ExploresAll (w : Walk) : List Frame → Walk → Prop
  | [], w' => w = w'
  | frame :: frames, w' => ∃ v, Explores conventions index w frame v ∧ ExploresAll v frames w'

end Rules

/-! ## The steps of the machine -/

variable {conventions : Conventions} {index : Index}

theorem Advances.advance_eq {w v : Walk} {top : Frame} {rest frames : List Frame}
    (h : Advances conventions index w (top :: rest) v frames) :
    w.advance conventions index top rest = (v, .ok frames) := by
  cases h with
  | ended => rfl
  | ignored hres => simp [advance, hres]
  | unresolved hres hcaller => simp [advance, hres, hcaller, record]
  | framework hres hcaller => simp [advance, hres, hcaller, record]
  | suppressed hres hcaller hold => simp [advance, hres, hcaller, record, hold]
  | entered hres hcaller hnew hinner =>
    simp [advance, hres, hcaller, record, hnew, hinner, Except.map]

theorem advances_of_advance_eq {w v : Walk} {top : Frame} {rest frames : List Frame}
    (h : w.advance conventions index top rest = (v, .ok frames)) :
    Advances conventions index w (top :: rest) v frames := by
  obtain ⟨m, calls, context⟩ := top
  cases calls with
  | nil =>
    cases h
    exact .ended
  | cons call calls =>
    simp only [advance] at h
    split at h
    · cases h
    · rename_i hres
      cases h
      exact .ignored hres
    · rename_i resolution hresolved hres
      split at h
      · cases h
      · rename_i caller hcaller
        cases resolution with
        | ignored => exact absurd rfl hresolved
        | unresolved =>
          cases h
          exact .unresolved hres hcaller
        | framework category name =>
          cases h
          exact .framework hres hcaller
        | method target signature tier =>
          by_cases hold : target.baseFqn ∈ w.visited
          · simp only [record, if_pos hold] at h
            cases h
            exact .suppressed hres hcaller hold
          · simp only [record, if_neg hold, Prod.mk.injEq] at h
            obtain ⟨rfl, h⟩ := h
            cases hinner : Frame.ofMethod index target with
            | error fault => simp [hinner, Except.map] at h
            | ok inner =>
              simp only [hinner, Except.map, Except.ok.injEq] at h
              exact h ▸ .entered hres hcaller hold hinner

/-- The rules are what a step of the machine does. -/
theorem advances_iff {w v : Walk} {top : Frame} {rest frames : List Frame} :
    Advances conventions index w (top :: rest) v frames ↔
      w.advance conventions index top rest = (v, .ok frames) :=
  ⟨Advances.advance_eq, advances_of_advance_eq⟩

@[simp] theorem run_nil (w : Walk) : w.run conventions index [] = (w, none) := by
  rw [run]

theorem run_cons_of_ok {w v : Walk} {top : Frame} {rest frames : List Frame}
    (h : w.advance conventions index top rest = (v, .ok frames)) :
    w.run conventions index (top :: rest) = v.run conventions index frames := by
  rw [run]
  split <;> simp_all

theorem run_cons_of_error {w v : Walk} {top : Frame} {rest : List Frame} {fault : Fault}
    (h : w.advance conventions index top rest = (v, .error fault)) :
    w.run conventions index (top :: rest) = (v, some fault) := by
  rw [run]
  split <;> simp_all

/-! ## The machine and the recursion -/

/-- What the machine does with a frame is done before it looks at the frames below. -/
theorem Explores.run_cons {w w' : Walk} {frame : Frame}
    (h : Explores conventions index w frame w') (rest : List Frame) :
    w.run conventions index (frame :: rest) = w'.run conventions index rest := by
  induction h generalizing rest with
  | done => exact run_cons_of_ok (Advances.ended).advance_eq
  | ignored hres _ ih => exact (run_cons_of_ok (Advances.ignored hres).advance_eq).trans (ih rest)
  | unresolved hres hcaller _ ih =>
    exact (run_cons_of_ok (Advances.unresolved hres hcaller).advance_eq).trans (ih rest)
  | framework hres hcaller _ ih =>
    exact (run_cons_of_ok (Advances.framework hres hcaller).advance_eq).trans (ih rest)
  | suppressed hres hcaller hold _ ih =>
    exact (run_cons_of_ok (Advances.suppressed hres hcaller hold).advance_eq).trans (ih rest)
  | entered hres hcaller hnew hinner _ _ ihinner ih =>
    rw [run_cons_of_ok (Advances.entered hres hcaller hnew hinner).advance_eq, ihinner, ih]

/-- A step of the machine is the first step of the recursion. -/
theorem Advances.exploresAll {w v w' : Walk} {stack frames : List Frame}
    (h : Advances conventions index w stack v frames)
    (hrest : ExploresAll conventions index v frames w') :
    ExploresAll conventions index w stack w' := by
  cases h with
  | ended => exact ⟨_, .done, hrest⟩
  | ignored hres =>
    obtain ⟨u, htop, hrest⟩ := hrest
    exact ⟨u, .ignored hres htop, hrest⟩
  | unresolved hres hcaller =>
    obtain ⟨u, htop, hrest⟩ := hrest
    exact ⟨u, .unresolved hres hcaller htop, hrest⟩
  | framework hres hcaller =>
    obtain ⟨u, htop, hrest⟩ := hrest
    exact ⟨u, .framework hres hcaller htop, hrest⟩
  | suppressed hres hcaller hold =>
    obtain ⟨u, htop, hrest⟩ := hrest
    exact ⟨u, .suppressed hres hcaller hold htop, hrest⟩
  | entered hres hcaller hnew hinner =>
    obtain ⟨u, hin, t, htop, hrest⟩ := hrest
    exact ⟨t, .entered hres hcaller hnew hinner hin htop, hrest⟩

/-- The machine empties a stack exactly as the recursion goes through its frames, top first. -/
theorem run_eq_none_iff {w w' : Walk} {stack : List Frame} :
    w.run conventions index stack = (w', none) ↔ ExploresAll conventions index w stack w' := by
  constructor
  · -- along the recursion of the machine itself, which ends on every stack
    intro h
    induction w, stack using run.induct conventions index with
    | case1 w => simpa [ExploresAll] using h
    | case2 w top rest v fault hadvance =>
      rw [run_cons_of_error hadvance] at h
      cases h
    | case3 w top rest v frames hadvance hlt ih =>
      rw [run_cons_of_ok hadvance] at h
      exact (advances_iff.mpr hadvance).exploresAll (ih h)
  · intro h
    induction stack generalizing w with
    | nil => simpa [ExploresAll] using h
    | cons frame rest ih =>
      obtain ⟨v, hframe, hrest⟩ := h
      rw [hframe.run_cons rest, ih hrest]

theorem explores_iff_run {w w' : Walk} {frame : Frame} :
    Explores conventions index w frame w' ↔ w.run conventions index [frame] = (w', none) := by
  rw [run_eq_none_iff]
  simp [ExploresAll]

/-! ## The walk from a key -/

@[simp] theorem trace_visit (w : Walk) (base : String) : (w.visit base).trace = w.trace := by
  unfold visit
  split <;> rfl

theorem extend_of_locate? {w : Walk} {key : Datum} {base : String} {m : Method}
    (hkey : key.walkKey = .ok (some base)) (hnew : base ∉ w.visited)
    (hm : index.locate? base = some m) :
    w.extend conventions index key = (w.visit base).fromMethod conventions index m := by
  simp [extend, hkey, hnew, hm]

theorem fromMethod_of_nil {w : Walk} {m : Method} {signature : String} {frame : Frame}
    (hsteps : w.trace.steps = []) (hsignature : m.signature = .ok signature)
    (hframe : Frame.ofMethod index m = .ok frame) :
    w.fromMethod conventions index m =
      ((w.visit m.baseFqn).push ⟨signature, none, false⟩).run conventions index [frame] := by
  simp [fromMethod, hsteps, hsignature, hframe, Except.map]

theorem fromMethod_of_ne_nil {w : Walk} {m : Method} {frame : Frame} (hsteps : w.trace.steps ≠ [])
    (hframe : Frame.ofMethod index m = .ok frame) :
    w.fromMethod conventions index m =
      (w.visit m.baseFqn).run conventions index [frame] := by
  simp [fromMethod, hsteps, hframe]

theorem Follows.extend_eq {w w' : Walk} {key : Datum}
    (h : Follows conventions index w key w') : w.extend conventions index key = (w', none) := by
  cases h with
  | blank hkey => simp [extend, hkey]
  | known hkey hold => simp [extend, hkey, hold]
  | missing hkey hnew hm => simp [extend, hkey, hnew, hm]
  | first hkey hnew hm hsteps hsignature hframe hexplores =>
    rw [extend_of_locate? hkey hnew hm, fromMethod_of_nil (by simpa) hsignature hframe]
    exact explores_iff_run.mp hexplores
  | further hkey hnew hm hsteps hframe hexplores =>
    rw [extend_of_locate? hkey hnew hm, fromMethod_of_ne_nil (by simpa) hframe]
    exact explores_iff_run.mp hexplores

theorem follows_of_fromMethod_eq {w w' : Walk} {key : Datum} {base : String} {m : Method}
    (hkey : key.walkKey = .ok (some base)) (hnew : base ∉ w.visited)
    (hm : index.locate? base = some m)
    (h : (w.visit base).fromMethod conventions index m = (w', none)) :
    Follows conventions index w key w' := by
  by_cases hsteps : w.trace.steps = []
  · cases hsignature : m.signature with
    | error fault => simp [fromMethod, hsteps, hsignature, Except.map] at h
    | ok signature =>
      cases hframe : Frame.ofMethod index m with
      | error fault => simp [fromMethod, hsteps, hsignature, hframe, Except.map] at h
      | ok frame =>
        rw [fromMethod_of_nil (by simpa) hsignature hframe] at h
        exact .first hkey hnew hm hsteps hsignature hframe (explores_iff_run.mpr h)
  · cases hframe : Frame.ofMethod index m with
    | error fault => simp [fromMethod, hsteps, hframe] at h
    | ok frame =>
      rw [fromMethod_of_ne_nil (by simpa) hframe] at h
      exact .further hkey hnew hm hsteps hframe (explores_iff_run.mpr h)

theorem follows_of_extend_eq {w w' : Walk} {key : Datum}
    (h : w.extend conventions index key = (w', none)) : Follows conventions index w key w' := by
  cases hkey : key.walkKey with
  | error fault => simp [extend, hkey] at h
  | ok base? =>
    cases base? with
    | none =>
      simp only [extend, hkey, Prod.mk.injEq] at h
      exact h.1 ▸ .blank hkey
    | some base =>
      by_cases hold : base ∈ w.visited
      · simp only [extend, hkey, if_pos hold, Prod.mk.injEq] at h
        exact h.1 ▸ .known hkey hold
      · cases hm : index.locate? base with
        | none =>
          simp only [extend, hkey, if_neg hold, hm, Prod.mk.injEq] at h
          exact h.1 ▸ .missing hkey hold hm
        | some m =>
          rw [extend_of_locate? hkey hold hm] at h
          exact follows_of_fromMethod_eq hkey hold hm h

/-- The walk from a key is the recursive walk from it. -/
theorem extend_eq_none_iff {w w' : Walk} {key : Datum} :
    w.extend conventions index key = (w', none) ↔ Follows conventions index w key w' :=
  ⟨follows_of_extend_eq, Follows.extend_eq⟩

end EntryFlow.Walk
