import EntryFlow.Proofs.GraphEdges
import EntryFlow.Proofs.RootTraces

/-!
# The graph of all traces

A walk lists each method once and keeps the other calls to it aside. No call is lost by that: the
edges of the graph of all traces are the calls of all methods that can be reached from an entry
point, those of a method to itself among them, and its entry points are the methods that the walks
start with. Only walks that are late are missing.

## Main statements

* `Walk.Covers.mem_calls`: the calls of a trace are those of the methods that can be reached.
* `exists_trace_iff`: what some trace has, some entry point has.
* `Settings.graph_traceEntryPoints`: the edges and entry points of the graph of all traces.
-/

namespace EntryFlow

variable {conventions : Conventions} {index : Index} {types : List TypeRecord}

/-- Methods with plain base names are told apart by their signatures. -/
theorem Method.baseFqn_eq_of_signature_eq {m n : Method} (hm : m.WellTyped) (hn : n.WellTyped)
    (hplain : Text.Plain m.baseFqn) (hplain' : Text.Plain n.baseFqn)
    (heq : m.signature = n.signature) : m.baseFqn = n.baseFqn := by
  obtain ⟨parameters, hsignature⟩ := Method.exists_signature hm
  obtain ⟨parameters', hsignature'⟩ := Method.exists_signature hn
  rw [hsignature, hsignature', Except.ok.injEq] at heq
  exact hplain.tidy.eq_of_signature_eq hplain'.tidy heq

namespace Walk.Covers

variable {root : Method} {ms : List Method} {w : Walk}

/-- The only step without a caller is the first one. -/
theorem caller_eq_none_iff (hc : Covers conventions index root ms w) {e : Datum} :
    (∃ s ∈ w.trace.steps, s.caller = none ∧ e = .text s.target) ↔
      ∃ signature, root.signature = .ok signature ∧ e = .text signature := by
  obtain ⟨signature, later, hsignature, hsteps⟩ := hc.first
  constructor
  · rintro ⟨s, hs, hnone, rfl⟩
    obtain ⟨before, after, heq⟩ := List.append_of_mem hs
    cases before with
    | nil =>
      rw [hsteps, List.nil_append, List.cons.injEq] at heq
      exact ⟨signature, hsignature, heq.1 ▸ rfl⟩
    | cons first before =>
      obtain ⟨caller, -, hcaller⟩ := hc.anchored _ _ _ heq (by simp)
      rw [hnone] at hcaller
      cases hcaller
  · rintro ⟨signature', hsignature', rfl⟩
    cases hsignature.symm.trans hsignature'
    exact ⟨_, hsteps ▸ List.mem_cons_self, rfl, rfl⟩

section Plain

variable (h : index.WellFormed) (hplain : ∀ m ∈ index.methodList, Text.Plain m.baseFqn)
  (hroot : root ∈ index.methodList) (hc : Covers conventions index root ms w)
include h hplain hroot hc

/-- What is expanded has the signature of a method with a plain base name. -/
theorem exists_of_mem_expanded {signature : String} (hs : signature ∈ expanded w.trace.steps) :
    ∃ base parameters, Text.Plain base ∧ signature = base ++ "(" ++ parameters ++ ")" := by
  have hlisted : Except.ok signature ∈ ms.map Method.signature := by
    rw [← hc.listed]
    exact List.mem_map_of_mem hs
  obtain ⟨m, hm, heq⟩ := List.mem_map.mp hlisted
  have hindexed := ((hc.reached m).mp hm).mem_methodList hroot
  obtain ⟨parameters, hsignature⟩ := Method.exists_signature (h.wellTyped_of_mem hindexed)
  rw [hsignature, Except.ok.injEq] at heq
  exact ⟨m.baseFqn, parameters, hplain m hindexed, heq.symm⟩

/-- No signature is expanded twice. -/
theorem nodup_expanded : (expanded w.trace.steps).Nodup := by
  have hindexed : ∀ m ∈ ms, m ∈ index.methodList := fun m hm =>
    ((hc.reached m).mp hm).mem_methodList hroot
  have hsignatures : (ms.map Method.signature).Nodup := by
    refine List.pairwise_map.mpr ((List.pairwise_map.mp hc.nodup).imp_of_mem ?_)
    intro m n hm hn hne heq
    have hm := hindexed m hm
    have hn := hindexed n hn
    exact hne (Method.baseFqn_eq_of_signature_eq (h.wellTyped_of_mem hm) (h.wellTyped_of_mem hn)
      (hplain m hm) (hplain n hn) heq)
  rw [← hc.listed] at hsignatures
  exact (List.pairwise_map.mp hsignatures).imp fun hne heq => hne (congrArg _ heq)

/-- No step lists a call of a method to itself. -/
theorem caller_ne_target {s : Step} (hs : s ∈ w.trace.steps) : s.caller ≠ some s.target := by
  intro hself
  obtain ⟨before, after, heq⟩ := List.append_of_mem hs
  have hne : before ≠ [] := by
    rintro rfl
    obtain ⟨signature, later, -, hsteps⟩ := hc.first
    rw [hsteps, List.nil_append, List.cons.injEq] at heq
    rw [← heq.1] at hself
    cases hself
  obtain ⟨caller, hcaller, hanchor⟩ := hc.anchored before s after heq hne
  cases hself.symm.trans hanchor
  have hexpanded : expanded w.trace.steps = expanded before ++ expanded (s :: after) := by
    rw [heq, expanded_append]
  cases hterminal : s.terminal with
  | true =>
    -- a leaf has the label of a framework call, which is no signature
    obtain ⟨base, parameters, hbase, htarget⟩ :=
      exists_of_mem_expanded h hplain hroot hc (hexpanded ▸ List.mem_append_left _ hcaller)
    have hleaf : s ∈ w.trace.steps.filter (·.terminal) := List.mem_filter.mpr ⟨hs, hterminal⟩
    obtain ⟨site, -, hsite⟩ := List.mem_filterMap.mp (hc.leaves.mem_iff.mp hleaf)
    unfold CallSite.leaf? at hsite
    split at hsite
    · cases hsite
      exact frameworkLabel_ne_signature hbase parameters _ _ htarget
    · cases hsite
  | false =>
    have hnodup := nodup_expanded h hplain hroot hc
    rw [hexpanded, List.nodup_append] at hnodup
    exact hnodup.2.2 _ hcaller _ (by simp [expanded, hterminal]) rfl

/-- The calls of a trace are those of the methods that can be reached. -/
theorem mem_calls {call : String × String} :
    call ∈ w.trace.calls ↔ ∃ m, root.Reaches conventions index m ∧
      ∃ s ∈ m.sites conventions index, s.edge? = some call := by
  have hcall : ∀ s ∈ w.trace.steps, s.call? = s.edge? := by
    intro s hs
    have hne := caller_ne_target h hplain hroot hc hs
    cases hcaller : s.caller with
    | none => simp [Step.call?, Step.edge?, hcaller]
    | some caller =>
      have hne : caller ≠ s.target := fun heq => hne (heq ▸ hcaller)
      simp [Step.call?, Step.edge?, hcaller, Option.filter, hne]
  have hcalls : w.trace.calls = w.trace.edges ++ w.trace.suppressed := by
    rw [Trace.calls, Trace.edges, List.filterMap_congr hcall]
  rw [hcalls, hc.edges.mem_iff, List.mem_filterMap]
  constructor
  · rintro ⟨s, hs, hedge⟩
    obtain ⟨m, hm, hs⟩ := List.mem_flatMap.mp hs
    exact ⟨m, (hc.reached m).mp hm, s, hs, hedge⟩
  · rintro ⟨m, hm, s, hs, hedge⟩
    exact ⟨s, List.mem_flatMap.mpr ⟨m, (hc.reached m).mpr hm, hs⟩, hedge⟩

end Plain

end Walk.Covers

namespace EntryPoint.HasTrace

variable {root : EntryPoint} {t : Trace} (ht : root.HasTrace conventions index t)
include ht

/-- The calls of the trace of an entry point. -/
theorem mem_calls (h : index.WellFormed)
    (hplain : ∀ m ∈ index.methodList, Text.Plain m.baseFqn) {call : String × String} :
    call ∈ t.calls ↔ ∃ r, index.method? root.baseFqn = some r ∧
      ∃ m, r.Reaches conventions index m ∧
        ∃ s ∈ m.sites conventions index, s.edge? = some call := by
  obtain ⟨r, ms, w, hr, hc, rfl⟩ := ht
  rw [hc.mem_calls h hplain (Index.mem_methodList_of_method? hr)]
  simp [hr]

theorem caller_eq_none_iff {e : Datum} :
    (∃ s ∈ t.steps, s.caller = none ∧ e = .text s.target) ↔
      ∃ r, index.method? root.baseFqn = some r ∧
        ∃ signature, r.signature = .ok signature ∧ e = .text signature := by
  obtain ⟨r, ms, w, hr, hc, rfl⟩ := ht
  rw [hc.caller_eq_none_iff]
  simp [hr]

end EntryPoint.HasTrace

/-- Where entry points and traces belong together, some trace has what some entry point has. -/
theorem exists_trace_iff {roots : List EntryPoint} {traces : List Trace} {P : Trace → Prop}
    {Q : EntryPoint → Prop}
    (hcomplete : ∀ root ∈ roots, ∃ t ∈ traces, root.HasTrace conventions index t)
    (hsound : ∀ t ∈ traces, ∃ root ∈ roots, root.HasTrace conventions index t)
    (hiff : ∀ root t, root.HasTrace conventions index t → (P t ↔ Q root)) :
    (∃ t ∈ traces, P t) ↔ ∃ root ∈ roots, Q root := by
  constructor
  · rintro ⟨t, ht, hp⟩
    obtain ⟨root, hroot, hhas⟩ := hsound t ht
    exact ⟨root, hroot, (hiff root t hhas).mp hp⟩
  · rintro ⟨root, hroot, hq⟩
    obtain ⟨t, ht, hhas⟩ := hcomplete root hroot
    exact ⟨t, ht, (hiff root t hhas).mpr hq⟩

namespace Settings

section Graph

variable {s : Settings} {waits : Waits} {roots : List EntryPoint}
  (htypes : Corpus.WellTyped types) (hplain : Corpus.PlainNames types)
  (hconventions : s.conventions = .ok conventions) (hw : conventions.WellTyped)
include htypes hplain hconventions hw

/-- The edges and the entry points of the graph of the traces that are not late. -/
theorem exists_graph_traceEntryPoints (hroots : entryPoints s.entryKinds types = .ok roots)
    (hwaits : s.refuses waits roots = false) :
    ∃ traces, (s.traceEntryPoints waits (some types)).Yields traces ∧
      (∀ a b, (a, b) ∈ (CallGraph.ofTraces traces.values).edges ↔
        ∃ root ∈ s.keptRoots waits roots, ∃ r,
          (Index.ofTypes types).method? root.baseFqn = some r ∧
          ∃ m, r.Reaches conventions (.ofTypes types) m ∧
            ∃ site ∈ m.sites conventions (.ofTypes types),
              ∃ call, site.edge? = some call ∧ a = .text call.1 ∧ b = .text call.2) ∧
      ∀ e, e ∈ (CallGraph.ofTraces traces.values).entryPoints ↔
        ∃ root ∈ s.keptRoots waits roots, ∃ r,
          (Index.ofTypes types).method? root.baseFqn = some r ∧
          ∃ signature, r.signature = .ok signature ∧ e = .text signature := by
  have h := Index.wellFormed_ofTypes htypes
  obtain ⟨traces, hyields, hcomplete, hsound⟩ :=
    exists_yields_traceEntryPoints htypes hconventions hw hroots hplain hwaits
  refine ⟨traces, hyields, fun a b => ?_, fun e => ?_⟩
  · rw [CallGraph.mem_edges_ofTraces]
    refine exists_trace_iff hcomplete hsound fun root t ht => ?_
    have hcalls : ∀ call, call ∈ t.calls ↔ _ := fun call =>
      ht.mem_calls h fun m hm => hplain.baseFqn htypes hm
    constructor
    · rintro ⟨call, hcall, ha, hb⟩
      obtain ⟨r, hr, m, hm, site, hsite, hedge⟩ := (hcalls call).mp hcall
      exact ⟨r, hr, m, hm, site, hsite, call, hedge, ha, hb⟩
    · rintro ⟨r, hr, m, hm, site, hsite, call, hedge, ha, hb⟩
      exact ⟨call, (hcalls call).mpr ⟨r, hr, m, hm, site, hsite, hedge⟩, ha, hb⟩
  · rw [CallGraph.mem_entryPoints_ofTraces]
    exact exists_trace_iff hcomplete hsound fun root t ht => ht.caller_eq_none_iff

/-- The analysis of a corpus with plain names, whatever was analysed before and whatever its waits
come to. It ends in a fault if it cannot wait for a walk. Otherwise it ends without one, and but for
the entry points that are left out as late no call is lost in the graph of its traces. The edges are
the calls with a target of all methods that can be reached from the indexed method of an entry point
that is not left out, and the entry points of the graph are these indexed methods. With one worker,
without a time limit, or if all walks have ended when their traces are asked for, no
entry point is left out. -/
theorem graph_traceEntryPoints (waits : Waits) :
    ∃ index roots, Index.build types = .ok index ∧ entryPoints s.entryKinds types = .ok roots ∧
      (s.isParallel roots = false ∨ s.rootTimeout = .null ∨ (∀ i, waits i = .ended) →
        s.refuses waits roots = false ∧ s.keptRoots waits roots = roots) ∧
      (s.refuses waits roots = true →
        (s.traceEntryPoints waits (some types)).EndsIn .waitTooLong) ∧
      (s.refuses waits roots = false →
        ∃ traces, (s.traceEntryPoints waits (some types)).Yields traces ∧
          (∀ a b, (a, b) ∈ (CallGraph.ofTraces traces.values).edges ↔
            ∃ root ∈ s.keptRoots waits roots, ∃ r, index.method? root.baseFqn = some r ∧
              ∃ m, r.Reaches conventions index m ∧ ∃ site ∈ m.sites conventions index,
                ∃ call, site.edge? = some call ∧ a = .text call.1 ∧ b = .text call.2) ∧
          ∀ e, e ∈ (CallGraph.ofTraces traces.values).entryPoints ↔
            ∃ root ∈ s.keptRoots waits roots, ∃ r, index.method? root.baseFqn = some r ∧
              ∃ signature, r.signature = .ok signature ∧ e = .text signature) := by
  obtain ⟨roots, hroots, -⟩ := gives_entryPoints htypes s.entryKinds
  exact ⟨_, roots, Index.build_eq_ofTypes htypes, hroots,
    fun h => ⟨refuses_eq_false h, keptRoots_eq_self h⟩,
    endsIn_traceEntryPoints htypes hconventions hw hroots,
    exists_graph_traceEntryPoints htypes hplain hconventions hw hroots⟩

end Graph

/-- The graph of the sample while its second entry point is late. -/
theorem graph_traceEntryPoints_sample :
    Corpus.WellTyped Corpus.sample ∧ Corpus.PlainNames Corpus.sample ∧
      ∃ index traces, Index.build Corpus.sample = .ok index ∧
        (hurried.traceEntryPoints .secondLate (some Corpus.sample)).Yields traces ∧
        (∀ a b, (a, b) ∈ (CallGraph.ofTraces traces.values).edges ↔
          ∃ r, index.method? "app.Shop.buy" = some r ∧
            ∃ m, r.Reaches .default index m ∧ ∃ site ∈ m.sites .default index,
              ∃ call, site.edge? = some call ∧ a = .text call.1 ∧ b = .text call.2) ∧
        ∀ e, e ∈ (CallGraph.ofTraces traces.values).entryPoints ↔
          ∃ r, index.method? "app.Shop.buy" = some r ∧
            ∃ signature, r.signature = .ok signature ∧ e = .text signature := by
  have htypes : Corpus.WellTyped Corpus.sample := by decide
  have hplain : Corpus.PlainNames Corpus.sample := by decide
  obtain ⟨index, roots, hindex, hroots, -, -, hall⟩ :=
    graph_traceEntryPoints (s := hurried) htypes hplain rfl
      (show Conventions.default.WellTyped by decide) .secondLate
  cases hroots.symm.trans Corpus.entryPoints_sample
  obtain ⟨traces, hyields, hedges, hentries⟩ := hall refuses_secondLate
  simp only [keptRoots_secondLate, List.mem_singleton, exists_eq_left] at hedges hentries
  exact ⟨htypes, hplain, index, traces, hindex, hyields, hedges, hentries⟩

/-- A late entry point of the sample, with the calls of its method, is not in the graph. -/
theorem graph_traceEntryPoints_secondLate :
    Corpus.WellTyped Corpus.sample ∧ Corpus.PlainNames Corpus.sample ∧
      Index.build Corpus.sample = .ok (.ofTypes Corpus.sample) ∧
      entryPoints hurried.entryKinds Corpus.sample = .ok Corpus.sampleRoots ∧
      ∃ traces, (hurried.traceEntryPoints .secondLate (some Corpus.sample)).Yields traces ∧
        ¬ ((∀ a b, (a, b) ∈ (CallGraph.ofTraces traces.values).edges ↔
            ∃ root ∈ Corpus.sampleRoots, ∃ r,
              (Index.ofTypes Corpus.sample).method? root.baseFqn = some r ∧
              ∃ m, r.Reaches .default (.ofTypes Corpus.sample) m ∧
                ∃ site ∈ m.sites .default (.ofTypes Corpus.sample),
                  ∃ call, site.edge? = some call ∧ a = .text call.1 ∧ b = .text call.2) ∧
          ∀ e, e ∈ (CallGraph.ofTraces traces.values).entryPoints ↔
            ∃ root ∈ Corpus.sampleRoots, ∃ r,
              (Index.ofTypes Corpus.sample).method? root.baseFqn = some r ∧
              ∃ signature, r.signature = .ok signature ∧ e = .text signature) := by
  have htypes : Corpus.WellTyped Corpus.sample := by decide
  have hplain : Corpus.PlainNames Corpus.sample := by decide
  have hw : Conventions.default.WellTyped := by decide
  have hconventions : hurried.conventions = .ok .default := rfl
  obtain ⟨traces, hyields, -, hentries⟩ := exists_graph_traceEntryPoints htypes hplain hconventions
    hw Corpus.entryPoints_sample refuses_secondLate
  refine ⟨htypes, hplain, Index.build_eq_ofTypes htypes, Corpus.entryPoints_sample, traces, hyields,
    ?_⟩
  rintro ⟨-, hall⟩
  simp only [keptRoots_secondLate, List.mem_singleton, exists_eq_left] at hentries
  have hlisted : .text "app.Shop.refund()" ∈ (CallGraph.ofTraces traces.values).entryPoints :=
    (hall _).mpr ⟨_, List.mem_cons_of_mem _ List.mem_cons_self, Corpus.sampleRefund,
      by decide +kernel, _, by decide +kernel, rfl⟩
  obtain ⟨r, hr, signature, hsignature, heq⟩ := (hentries _).mp hlisted
  have hbuy : (Index.ofTypes Corpus.sample).method? "app.Shop.buy" = some Corpus.sampleRoot := by
    decide +kernel
  cases hr.symm.trans hbuy
  have hname : Corpus.sampleRoot.signature = .ok "app.Shop.buy()" := by decide
  cases hsignature.symm.trans hname
  exact absurd heq (by decide)

end Settings

end EntryFlow
