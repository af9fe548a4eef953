import EntryFlow.Proofs.CallSite

/-!
# Looking at call sites

A walk looks at one call site after the other. Each look changes the walk in one place: it lists a
step, suppresses a call, reports one or does nothing. What a sequence of looks leaves in a walk is
therefore the sum of what the sites contribute.

## Main definitions

* `expanded`, `Anchored`: the methods that a list of steps expands, and where their callers stand.
* `Walk.look`: take down what a call site refers to.

## Main statements

* `Walk.mem_visited_foldl_look`: after some looks the targets of the sites are visited.
* `Walk.perm_foldl_look`: the contributions of the sites add up.
* `Walk.edges_look`, `Walk.leaves_look`, `Walk.reports_look`: what a site contributes.
-/

namespace EntryFlow

/-- The targets of the steps that are expanded. -/
def expanded (steps : List Step) : List String :=
  (steps.filter fun s => !s.terminal).map (·.target)

@[simp] theorem expanded_append (ss ts : List Step) :
    expanded (ss ++ ts) = expanded ss ++ expanded ts := by
  simp [expanded]

/-- Every step but the first has a caller, and that is expanded before the step. -/
def Anchored (steps : List Step) : Prop :=
  ∀ before s after, steps = before ++ s :: after → before ≠ [] →
    ∃ caller ∈ expanded before, s.caller = some caller

theorem anchored_singleton (s : Step) : Anchored [s] := by
  intro before t after heq hne
  cases before with
  | nil => exact absurd rfl hne
  | cons u before => simp at heq

theorem Anchored.concat {steps : List Step} {s : Step} {caller : String} (h : Anchored steps)
    (hcaller : caller ∈ expanded steps) (hs : s.caller = some caller) :
    Anchored (steps ++ [s]) := by
  intro before t after heq hne
  rcases List.eq_nil_or_concat after with rfl | ⟨after, last, rfl⟩
  · obtain ⟨rfl, hlast⟩ := List.append_inj' heq rfl
    cases hlast
    exact ⟨caller, hcaller, hs⟩
  · rw [List.concat_eq_append, ← List.cons_append, ← List.append_assoc] at heq
    obtain ⟨rfl, -⟩ := List.append_inj' heq rfl
    exact h before t after rfl hne

namespace Walk

/-! ## Looking at a site -/

/-- Take down what a call site refers to. -/
def look (w : Walk) (s : CallSite) : Walk :=
  (w.record s.call s.caller s.resolution).1

theorem look_suppressed {w : Walk} {target : Method} (h : target.baseFqn ∈ w.visited)
    (caller : String) (call : Datum) (signature : String) (tier : Tier) :
    w.look ⟨caller, call, .method target signature tier⟩ = w.suppress caller signature := by
  simp [look, record, h]

theorem look_entered {w : Walk} {target : Method} (h : target.baseFqn ∉ w.visited)
    (caller : String) (call : Datum) (signature : String) (tier : Tier) :
    w.look ⟨caller, call, .method target signature tier⟩ =
      (w.visit target.baseFqn).push ⟨signature, some caller, false⟩ := by
  simp [look, record, h]

/-- Looking at a site marks its target. -/
theorem mem_visited_look {w : Walk} {s : CallSite} {base : String} :
    base ∈ (w.look s).visited ↔
      base ∈ w.visited ∨ ∃ n, s.resolution.target? = some n ∧ n.baseFqn = base := by
  obtain ⟨caller, call, resolution⟩ := s
  cases resolution with
  | method target signature tier =>
    by_cases h : target.baseFqn ∈ w.visited
    · rw [look_suppressed h]
      simp only [visited_suppress, Resolution.target?, Option.some.injEq]
      constructor
      · exact .inl
      · rintro (hb | ⟨n, rfl, rfl⟩)
        · exact hb
        · exact h
    · rw [look_entered h]
      simp only [visited_push, mem_visited_visit, Resolution.target?, Option.some.injEq]
      constructor
      · rintro (rfl | hb)
        · exact .inr ⟨target, rfl, rfl⟩
        · exact .inl hb
      · rintro (hb | ⟨n, rfl, rfl⟩)
        · exact .inr hb
        · exact .inl rfl
  | framework | ignored | unresolved => simp [look, record, Resolution.target?]

theorem mem_visited_foldl_look {w : Walk} {order : List CallSite} {base : String} :
    base ∈ (order.foldl look w).visited ↔
      base ∈ w.visited ∨ ∃ s ∈ order, ∃ n, s.resolution.target? = some n ∧ n.baseFqn = base :=
  iff_foldl (fun w : Walk => base ∈ w.visited)
    (fun s => ∃ n, s.resolution.target? = some n ∧ n.baseFqn = base) (fun _ _ => mem_visited_look)
    order w

/-- What every look adds to a list, all of them add together. -/
theorem perm_foldl_look {γ : Type} {tally : Walk → List γ} {part : CallSite → Option γ}
    (hlook : ∀ w s, (tally (w.look s)).Perm (tally w ++ (part s).toList)) (w : Walk)
    (order : List CallSite) :
    (tally (order.foldl look w)).Perm (tally w ++ order.filterMap part) := by
  induction order generalizing w with
  | nil => simp
  | cons s order ih =>
    have hparts : (s :: order).filterMap part = (part s).toList ++ order.filterMap part := by
      cases hs : part s <;> simp [hs]
    rw [hparts, ← List.append_assoc]
    exact (ih (w.look s)).trans ((hlook w s).append_right _)

theorem perm_append_singleton_append {γ : Type} (xs ys : List γ) (x : γ) :
    (xs ++ [x] ++ ys).Perm (xs ++ ys ++ [x]) := by
  rw [List.append_assoc, List.append_assoc]
  exact List.perm_append_comm.append_left xs

theorem edges_look (w : Walk) (s : CallSite) :
    ((w.look s).trace.edges ++ (w.look s).trace.suppressed).Perm
      (w.trace.edges ++ w.trace.suppressed ++ s.edge?.toList) := by
  obtain ⟨caller, call, resolution⟩ := s
  cases resolution with
  | method target signature tier =>
    by_cases h : target.baseFqn ∈ w.visited
    · simp [look_suppressed h, suppress, Trace.edges, CallSite.edge?, Resolution.label?]
    · rw [look_entered h]
      simpa [push, Trace.edges, CallSite.edge?, Resolution.label?, Step.edge?] using
        perm_append_singleton_append w.trace.edges w.trace.suppressed (caller, signature)
  | framework category name =>
    simpa [look, record, push, Trace.edges, CallSite.edge?, Resolution.label?, Step.edge?] using
      perm_append_singleton_append w.trace.edges w.trace.suppressed
        (caller, frameworkLabel category name)
  | ignored | unresolved => simp [look, record, report, CallSite.edge?, Resolution.label?]

theorem leaves_look (w : Walk) (s : CallSite) :
    (w.look s).trace.steps.filter (·.terminal) =
      w.trace.steps.filter (·.terminal) ++ s.leaf?.toList := by
  obtain ⟨caller, call, resolution⟩ := s
  cases resolution with
  | method target signature tier =>
    by_cases h : target.baseFqn ∈ w.visited
    · simp [look_suppressed h, suppress, CallSite.leaf?]
    · simp [look_entered h, push, CallSite.leaf?]
  | framework | ignored | unresolved => simp [look, record, report, push, CallSite.leaf?]

theorem reports_look (w : Walk) (s : CallSite) :
    (w.look s).reports = w.reports ++ s.report?.toList := by
  obtain ⟨caller, call, resolution⟩ := s
  cases resolution with
  | method target signature tier =>
    by_cases h : target.baseFqn ∈ w.visited
    · simp [look_suppressed h, suppress, CallSite.report?]
    · simp [look_entered h, push, visit, h, CallSite.report?]
  | framework | ignored | unresolved => simp [look, record, report, push, CallSite.report?]

end Walk

end EntryFlow
