import EntryFlow.Proofs.RootTraces

/-!
# Entry points in isolation

Where names are tidy, the analysis of a corpus treats each of its entry points as if it were alone.
None is left out unless it is late, and the flow of an entry point is the one that is found for its
base name in any other run. It starts with the last method that the corpus declares under that name:
the enumeration of entry points, the index and the look-up of a key agree about what a base name
stands for.

## Main definitions

* `Step.IsMarker`: the steps that a walk leaves for keys without a method.
* `Corpus.lastDeclared?`: the last method that a corpus declares under a base name.

## Main statements

* `Walk.Explores.withEntry`, `Walk.flow_complete`: a walk does not depend on what it is called.
* `Corpus.method?_eq_lastDeclared?`: the index keeps the last declaration.
* `Settings.traceEntryPoints_isolated`: the traces of a corpus, entry point by entry point.
-/

namespace EntryFlow

variable {conventions : Conventions} {index : Index} {types : List TypeRecord}

/-- The step is a marker that a walk leaves for a key that leads to no method. -/
def Step.IsMarker (s : Step) : Prop :=
  ∃ key, s = ⟨Walk.blankMarker key, none, true⟩ ∨
    ∃ w : Walk, s = ⟨w.missingMarker key, none, true⟩

/-! ## The name of a walk -/

namespace Walk

/-- The walk under another name. -/
def withEntry (w : Walk) (entry : String) : Walk :=
  { w with trace := { w.trace with entry } }

@[simp] theorem flow_withEntry (w : Walk) (entry : String) :
    (w.withEntry entry).trace.flow = w.trace.flow := rfl

theorem withEntry_visit (w : Walk) (base entry : String) :
    (w.visit base).withEntry entry = (w.withEntry entry).visit base := by
  unfold visit
  split
  · rename_i hold
    exact (if_pos hold).symm
  · rename_i hnew
    exact (if_neg hnew).symm

/-- The same calls are looked at, with the same outcome, under any name. -/
theorem Explores.withEntry {w w' : Walk} {frame : Frame}
    (h : Explores conventions index w frame w') (entry : String) :
    Explores conventions index (w.withEntry entry) frame (w'.withEntry entry) := by
  induction h with
  | done => exact .done
  | ignored hres _ ih => exact .ignored hres ih
  | unresolved hres hcaller _ ih => exact .unresolved hres hcaller ih
  | framework hres hcaller _ ih => exact .framework hres hcaller ih
  | suppressed hres hcaller hold _ ih => exact .suppressed hres hcaller hold ih
  | @entered _ _ _ _ _ _ _ _ signature target _ _ hres hcaller hnew hinner _ _ ihinner ih =>
    refine .entered hres hcaller hnew hinner ?_ ih
    rw [← withEntry_visit]
    exact ihinner

theorem Follows.withEntry {w w' : Walk} {key : Datum}
    (h : Follows conventions index w key w') (entry : String) :
    Follows conventions index (w.withEntry entry) key (w'.withEntry entry) := by
  cases h with
  | blank hkey => exact .blank hkey
  | known hkey hold => exact .known hkey hold
  | @missing base hkey hnew hm =>
    have hmarked : Follows conventions index (w.withEntry entry) key _ := .missing hkey hnew hm
    rw [← withEntry_visit] at hmarked
    exact hmarked
  | first hkey hnew hm hsteps hsignature hframe hexplores =>
    refine .first hkey hnew hm hsteps hsignature hframe ?_
    rw [← withEntry_visit, ← withEntry_visit]
    exact hexplores.withEntry entry
  | further hkey hnew hm hsteps hframe hexplores =>
    refine .further hkey hnew hm hsteps hframe ?_
    rw [← withEntry_visit, ← withEntry_visit]
    exact hexplores.withEntry entry

/-- The flow from a key is the same under any name. -/
theorem flow_complete (hw : conventions.WellTyped) (h : index.WellFormed)
    (entry other key : String) :
    (complete conventions index entry key).trace.flow =
      (complete conventions index other key).trace.flow := by
  have hfollows := extend_eq_none_iff.mp (extend_start hw h entry key)
  have hother : (start other).extend conventions index (.text key) =
      ((complete conventions index entry key).withEntry other, none) :=
    (hfollows.withEntry other).extend_eq
  rw [extend_start hw h, Prod.mk.injEq] at hother
  rw [hother.1, flow_withEntry]

/-- A walk that covers a method leaves no marker: its only step without a caller is that of the
method. -/
theorem Covers.not_isMarker {root : Method} {ms : List Method} {w : Walk}
    (hc : Covers conventions index root ms w) {s : Step} (hs : s ∈ w.trace.steps) :
    ¬ s.IsMarker := by
  intro hmarker
  have hmarked : s.caller = none ∧ s.terminal = true := by
    obtain ⟨key, rfl | ⟨v, rfl⟩⟩ := hmarker <;> exact ⟨rfl, rfl⟩
  obtain ⟨before, after, heq⟩ := List.append_of_mem hs
  cases before with
  | nil =>
    obtain ⟨signature, later, -, hsteps⟩ := hc.first
    rw [hsteps, List.nil_append, List.cons.injEq] at heq
    rw [← heq.1] at hmarked
    cases hmarked.2
  | cons first before =>
    obtain ⟨caller, -, hcaller⟩ := hc.anchored _ _ _ heq (by simp)
    rw [hmarked.1] at hcaller
    cases hcaller

end Walk

/-! ## The last declaration -/

/-- The last method that a corpus declares under a base name. -/
def Corpus.lastDeclared? (types : List TypeRecord) (base : String) : Option Method :=
  ((types.flatMap fun t => t.methodList.map (Index.methodEntry t)).reverse.find?
    (·.1 = base)).map Prod.snd

/-- Of the methods with one base name the index keeps the last one declared. -/
theorem Corpus.method?_eq_lastDeclared? (types : List TypeRecord) (base : String) :
    (Index.ofTypes types).method? base = lastDeclared? types base := by
  rw [Index.method?, Index.methods_ofTypes, Table.find?_ofList, lastDeclared?]

namespace Settings

open Analysis

/-- The flow from a single key is that of its walk. -/
theorem warns_callFlow {s : Settings} (htypes : Corpus.WellTyped types)
    (hconventions : s.conventions = .ok conventions) (hw : conventions.WellTyped) (key : String) :
    Warns (s.callFlow (.text key) (some types))
      (Walk.complete conventions (.ofTypes types) key key).trace.flow
      (Walk.failures conventions (.ofTypes types) key key) := by
  have htrace := warns_trace hw (Index.wellFormed_ofTypes htypes) false key key
  simp only [callFlow, Option.getD_some, Datum.display_text]
  refine .quiet_bind (.ofResult (Index.build_eq_ofTypes htypes)) ?_
  exact .quiet_bind (.ofResult hconventions) (htrace.bind_quiet (.pure _))

section Isolated

variable {s : Settings} {waits : Waits} {roots : List EntryPoint}
  (htypes : Corpus.WellTyped types) (htidy : Corpus.TidyNames types)
  (hconventions : s.conventions = .ok conventions) (hw : conventions.WellTyped)
include htypes htidy hconventions hw

/-- The trace under the signature of an entry point is that of its base name alone. -/
theorem isolated_of_find?_traceTable (hroots : entryPoints s.entryKinds types = .ok roots)
    {root : EntryPoint} (hroot : root ∈ roots) {t : Trace}
    (ht : (EntryPoint.traceTable conventions (.ofTypes types) roots
      (s.keptRoots waits roots)).find? root.signature = some t) :
    (s.callFlow (.text root.baseFqn) (some types)).Yields t.flow ∧
      (∃ m signature, Corpus.lastDeclared? types root.baseFqn = some m ∧
        m.signature = .ok signature ∧ t.steps.head? = some ⟨signature, none, false⟩) ∧
      ∀ step ∈ t.steps, ¬ step.IsMarker := by
  obtain ⟨roots', hroots', hdeclared⟩ := gives_entryPoints htypes s.entryKinds
  cases hroots.symm.trans hroots'
  -- the trace may be that of another root with the same signature, which has the same base name
  obtain ⟨other, hother, hsignature, rfl⟩ := EntryPoint.exists_of_find?_traceTable ht
  have hother := hdeclared other (keptRoots_subset s waits roots hother)
  have hbase := hother.baseFqn_eq htidy (hdeclared root hroot) hsignature
  obtain ⟨r, ms, hr, hc⟩ := hother.exists_covers htypes htidy hw other.signature
  refine ⟨?_, ?_, fun step hstep => hc.not_isMarker hstep⟩
  · have hflow := (warns_callFlow htypes hconventions hw root.baseFqn).yields
    rw [Walk.flow_complete hw (Index.wellFormed_ofTypes htypes) root.baseFqn other.signature,
      ← hbase] at hflow
    rw [← hbase]
    exact hflow
  · obtain ⟨signature, later, hfirst, hsteps⟩ := hc.first
    rw [hbase, Corpus.method?_eq_lastDeclared?] at hr
    exact ⟨r, signature, hr, hfirst, congrArg List.head? hsteps⟩

/-- The analysis of a corpus with tidy names, whatever was analysed before and whatever its waits
come to. It ends in a fault if it cannot wait for a walk. Otherwise the signatures of the entry
points that are not left out as late have a trace, in the order in which they first occur among all
entry points. The flow under the signature of an entry point is that of its base name alone. It
starts with the last method that the corpus declares under that name, and no step of it is a marker.
With one worker, without a time limit, or if all walks have ended when their traces are asked for,
no entry point is left out. -/
theorem traceEntryPoints_isolated (waits : Waits) :
    ∃ roots, entryPoints s.entryKinds types = .ok roots ∧
      (s.isParallel roots = false ∨ s.rootTimeout = .null ∨ (∀ i, waits i = .ended) →
        s.refuses waits roots = false ∧ s.keptRoots waits roots = roots) ∧
      (s.refuses waits roots = true →
        (s.traceEntryPoints waits (some types)).EndsIn .waitTooLong) ∧
      (s.refuses waits roots = false →
        ∃ traces, (s.traceEntryPoints waits (some types)).Yields traces ∧
          traces.keys = ((roots.map (·.signature)).filter
            (· ∈ (s.keptRoots waits roots).map (·.signature))).eraseDups ∧
          ∀ root ∈ roots, ∀ t, traces.find? root.signature = some t →
            (s.callFlow (.text root.baseFqn) (some types)).Yields t.flow ∧
            (∃ m signature, Corpus.lastDeclared? types root.baseFqn = some m ∧
              m.signature = .ok signature ∧ t.steps.head? = some ⟨signature, none, false⟩) ∧
            ∀ step ∈ t.steps, ¬ step.IsMarker) := by
  obtain ⟨roots, hroots, -⟩ := gives_entryPoints htypes s.entryKinds
  refine ⟨roots, hroots, fun h => ⟨refuses_eq_false h, keptRoots_eq_self h⟩,
    endsIn_traceEntryPoints htypes hconventions hw hroots, fun hwaits => ?_⟩
  refine ⟨_, (warns_traceEntryPoints htypes hconventions hw hroots hwaits).yields,
    EntryPoint.keys_traceTable _ _ _ _, fun root hroot t ht => ?_⟩
  exact isolated_of_find?_traceTable htypes htidy hconventions hw hroots hroot ht

end Isolated

/-- The flow of the first entry point of the sample, while the second one is late. -/
theorem traceEntryPoints_isolated_sample :
    Corpus.WellTyped Corpus.sample ∧ Corpus.TidyNames Corpus.sample ∧
      ∃ traces t, (hurried.traceEntryPoints .secondLate (some Corpus.sample)).Yields traces ∧
        traces.keys = ["app.Shop.buy()"] ∧ traces.find? "app.Shop.buy()" = some t ∧
        (hurried.callFlow (.text "app.Shop.buy") (some Corpus.sample)).Yields t.flow ∧
        ∀ step ∈ t.steps, ¬ step.IsMarker := by
  have htypes : Corpus.WellTyped Corpus.sample := by decide
  have htidy : Corpus.TidyNames Corpus.sample := by decide
  obtain ⟨roots, hroots, -, -, hall⟩ :=
    traceEntryPoints_isolated (s := hurried) htypes htidy rfl
      (show Conventions.default.WellTyped by decide) .secondLate
  cases hroots.symm.trans Corpus.entryPoints_sample
  obtain ⟨traces, hyields, hkeys, hisolated⟩ := hall refuses_secondLate
  rw [keptRoots_secondLate] at hkeys
  have hkeys : traces.keys = ["app.Shop.buy()"] := hkeys.trans (by decide)
  obtain ⟨t, ht⟩ := Table.mem_keys_iff.mp (hkeys ▸ List.mem_singleton.mpr rfl)
  obtain ⟨hflow, -, hmarker⟩ := hisolated _ List.mem_cons_self t ht
  exact ⟨htypes, htidy, traces, t, hyields, hkeys, ht, hflow, hmarker⟩

/-- A late entry point of the sample has no trace, although its flow is found alone. -/
theorem traceEntryPoints_secondLate :
    Corpus.WellTyped Corpus.sample ∧ Corpus.TidyNames Corpus.sample ∧
      entryPoints hurried.entryKinds Corpus.sample = .ok Corpus.sampleRoots ∧
      ∃ traces, (hurried.traceEntryPoints .secondLate (some Corpus.sample)).Yields traces ∧
        traces.keys ≠ (Corpus.sampleRoots.map (·.signature)).eraseDups ∧
        (∃ flow, (hurried.callFlow (.text "app.Shop.refund") (some Corpus.sample)).Yields flow) ∧
        traces.find? "app.Shop.refund()" = none := by
  have htypes : Corpus.WellTyped Corpus.sample := by decide
  have hw : Conventions.default.WellTyped := by decide
  have hconventions : hurried.conventions = .ok .default := rfl
  have hyields := (warns_traceEntryPoints htypes hconventions hw Corpus.entryPoints_sample
    refuses_secondLate).yields
  have hflow := (warns_callFlow htypes hconventions hw "app.Shop.refund").yields
  rw [keptRoots_secondLate] at hyields
  refine ⟨htypes, by decide, Corpus.entryPoints_sample, _, hyields, ?_, ⟨_, hflow⟩, ?_⟩
  · rw [EntryPoint.keys_traceTable]
    decide
  · rw [Table.find?_eq_none_iff, EntryPoint.keys_traceTable]
    decide

end Settings

end EntryFlow
