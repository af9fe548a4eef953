import EntryFlow.Proofs.Coverage
import EntryFlow.Proofs.Journal
import EntryFlow.Proofs.Roots

/-!
# The traces of all entry points

A walk that starts afresh comes to the same end in every journal. It leaves a marker where its key
leads to no method, and else covers what can be reached from that method. The analysis of a
well-typed corpus gives every entry point the trace of its own walk, unless it is late. The analysis
ends in a fault only where it would have to wait for longer than it can.

## Main definitions

* `Walk.complete`: what the walk from a key comes to.
* `Index.start?`: the method that a key leads to.
* `EntryPoint.HasTrace`: a trace covers what can be reached from an entry point.
* `Settings.keptRoots`, `Settings.refuses`: the entry points that are not late, and runs that cannot
  wait.

## Main statements

* `Walk.complete_cases`: a walk leaves a marker or covers what can be reached.
* `Walk.mem_failures_iff`: the calls that are reported are those that cannot be resolved.
* `Analysis.warns_trace`: the analysis of a key yields the trace of its walk.
* `Settings.warns_traceEntryPoints`: the analysis of a corpus yields the traces of the walks that
  are not late.
* `Settings.endsIn_traceEntryPoints`: the analysis of a corpus that cannot wait for a walk.
-/

namespace EntryFlow

variable {conventions : Conventions} {index : Index} {types : List TypeRecord}

/-- The method that a key leads to. -/
def Index.start? (index : Index) (key : String) : Option Method :=
  (Call.callee? key).bind index.locate?

theorem Index.mem_methodList_of_start? {key : String} {r : Method}
    (h : index.start? key = some r) : r ∈ index.methodList := by
  obtain ⟨base, -, hr⟩ := Option.bind_eq_some_iff.mp h
  exact mem_methodList_of_locate? hr

/-! ## Walks from a fresh start -/

namespace Walk

/-- What the walk from a key comes to when nothing was visited before. -/
def complete (conventions : Conventions) (index : Index) (entry key : String) : Walk :=
  ((start entry).extend conventions index (.text key)).1

section Complete

variable (hw : conventions.WellTyped) (h : index.WellFormed) (entry key : String)
include hw h

theorem extend_start : (start entry).extend conventions index (.text key) =
    (complete conventions index entry key, none) := by
  have htext : (Datum.text key).isOptionalText := rfl
  obtain ⟨w, hextend⟩ := exists_extend hw h (start entry) htext
  rw [complete, hextend]

/-- The walk leaves a single marker and reports no call, or it covers what can be reached from the
method that the key leads to. -/
theorem complete_cases :
    (index.start? key = none ∧
      (∃ marker, (complete conventions index entry key).trace.steps = [⟨marker, none, true⟩]) ∧
      ∀ call caller, .unresolved call caller ∉ (complete conventions index entry key).reports) ∨
    ∃ r ms, index.start? key = some r ∧
      Covers conventions index r ms (complete conventions index entry key) := by
  have hextend := extend_start hw h entry key
  generalize complete conventions index entry key = w at hextend ⊢
  cases hkey : Call.callee? key with
  | none =>
    left
    have hwalk : Datum.walkKey (.text key) = .ok none := by rw [Datum.walkKey, hkey]
    rw [Follows.extend_eq (.blank hwalk)] at hextend
    cases hextend
    exact ⟨by rw [Index.start?, hkey]; rfl, ⟨_, rfl⟩, by simp [report, push, start]⟩
  | some base =>
    have hwalk : Datum.walkKey (.text key) = .ok (some base) := by rw [Datum.walkKey, hkey]
    cases hm : index.locate? base with
    | none =>
      left
      have hnew : base ∉ (start entry).visited := fun hold => by cases hold
      rw [Follows.extend_eq (.missing hwalk hnew hm)] at hextend
      cases hextend
      refine ⟨by rw [Index.start?, hkey]; exact hm,
        ⟨((start entry).visit base).missingMarker (.text key), ?_⟩, ?_⟩
      · rw [push, trace_visit, start, Trace.start, List.nil_append]
      · simp [push, visit, start]
    | some r =>
      right
      obtain ⟨w, ms, hcovered, hc⟩ := exists_covers hw h entry hkey hm
      rw [hextend] at hcovered
      cases hcovered
      exact ⟨r, ms, by rw [Index.start?, hkey]; exact hm, hc⟩

theorem steps_complete_ne_nil : (complete conventions index entry key).trace.steps ≠ [] := by
  rcases complete_cases hw h entry key with ⟨-, ⟨marker, hmarker⟩, -⟩ | ⟨r, ms, -, hc⟩
  · simp [hmarker]
  · obtain ⟨signature, later, -, hsteps⟩ := hc.first
    simp [hsteps]

/-- The calls that a walk reports are those that cannot be resolved in the methods that it
reaches. -/
theorem mem_reports_complete {call : Datum} {caller : String} :
    .unresolved call caller ∈ (complete conventions index entry key).reports ↔
      ∃ r, index.start? key = some r ∧ ∃ m, r.Reaches conventions index m ∧
        ∃ s ∈ m.sites conventions index, s.report? = some (.unresolved call caller) := by
  rcases complete_cases hw h entry key with ⟨hnone, -, hreports⟩ | ⟨r, ms, hr, hc⟩
  · simp [hnone, hreports]
  · rw [hc.reports.mem_iff, List.mem_filterMap, hr]
    constructor
    · rintro ⟨s, hs, hreport⟩
      obtain ⟨m, hm, hs⟩ := List.mem_flatMap.mp hs
      exact ⟨r, rfl, m, (hc.reached m).mp hm, s, hs, hreport⟩
    · rintro ⟨_, ⟨⟩, m, hm, s, hs, hreport⟩
      exact ⟨s, List.mem_flatMap.mpr ⟨m, (hc.reached m).mpr hm, hs⟩, hreport⟩

/-- Every call that a walk reports can be a key. -/
theorem isKey_of_mem_reports_complete {call : Datum} {caller : String}
    (hreport : .unresolved call caller ∈ (complete conventions index entry key).reports) :
    call.isKey := by
  obtain ⟨r, hr, m, hm, s, hs, hreport⟩ := (mem_reports_complete hw h entry key).mp hreport
  have hwell := h.wellTyped_of_mem (hm.mem_methodList (Index.mem_methodList_of_start? hr))
  obtain ⟨-, hcall, -⟩ := Method.mem_sites_iff.mp hs
  have heq : s.call = call := by
    unfold CallSite.report? at hreport
    split at hreport <;> simp_all
  exact heq ▸ Datum.isKey_of_isOptionalText (hwell.calls _ hcall)

end Complete

end Walk

/-- The calls that the walk from a key reports. -/
def Walk.failures (conventions : Conventions) (index : Index) (entry key : String) : List Datum :=
  (complete conventions index entry key).reports.filterMap Report.call?

/-- A walk fails at the calls that cannot be resolved in the methods that it reaches. -/
theorem Walk.mem_failures_iff (hw : conventions.WellTyped) (h : index.WellFormed)
    {entry key : String} {call : Datum} :
    call ∈ failures conventions index entry key ↔
      ∃ r, index.start? key = some r ∧ ∃ m, r.Reaches conventions index m ∧
        ∃ s ∈ m.sites conventions index, s.call = call ∧ s.resolution = .unresolved := by
  have hreport : ∀ s : CallSite, (∃ caller, s.report? = some (.unresolved call caller)) ↔
      s.call = call ∧ s.resolution = .unresolved := by
    intro s
    rw [CallSite.report?]
    cases s.resolution <;> simp
  have hcall : call ∈ failures conventions index entry key ↔
      ∃ caller, .unresolved call caller ∈ (complete conventions index entry key).reports := by
    rw [failures, List.mem_filterMap]
    constructor
    · rintro ⟨_ | ⟨_, caller⟩, hmem, ⟨⟩⟩
      exact ⟨caller, hmem⟩
    · rintro ⟨caller, hmem⟩
      exact ⟨_, hmem, rfl⟩
  simp only [hcall, mem_reports_complete hw h, ← hreport]
  constructor
  · rintro ⟨caller, r, hr, m, hm, s, hs, hreport⟩
    exact ⟨r, hr, m, hm, s, hs, caller, hreport⟩
  · rintro ⟨r, hr, m, hm, s, hs, caller, hreport⟩
    exact ⟨caller, r, hr, m, hm, s, hs, hreport⟩

namespace Analysis

variable (hw : conventions.WellTyped) (h : index.WellFormed) (byWorker : Bool) (entry key : String)
include hw h

/-- The reports of a walk, or some of them, can be taken down without a fault. -/
theorem warns_notes {reports : List Report}
    (hreports : reports ⊆ (Walk.complete conventions index entry key).reports) :
    Warns (reports.forM (note byWorker)) ⟨⟩ (reports.filterMap Report.call?) := by
  rw [List.filterMap_eq_flatMap_toList]
  refine .forM fun report hreport => warns_note byWorker ?_
  rintro call hcall
  cases report with
  | blankKey key => cases hcall
  | unresolved call caller =>
    cases hcall
    exact Walk.isKey_of_mem_reports_complete hw h entry key (hreports hreport)

/-- The analysis of a key yields the trace of its walk, and warns of what the walk reports. -/
theorem warns_trace :
    Warns (trace byWorker conventions index entry (.text key))
      (Walk.complete conventions index entry key).trace
      (Walk.failures conventions index entry key) := by
  unfold trace
  rw [Walk.extend_start hw h]
  exact (warns_notes hw h byWorker entry key (List.Subset.refl _)).bind_quiet (.pure _)

omit byWorker in
/-- The first reports of the walk of a worker can be taken down without a fault. -/
theorem warns_overhear (count : Nat) :
    Warns (overhear conventions index entry (.text key) count) ()
      (((Walk.complete conventions index entry key).reports.take count).filterMap
        Report.call?) := by
  unfold overhear
  rw [Walk.extend_start hw h]
  exact (warns_notes hw h true entry key (List.take_subset _ _)).tryCatch _

end Analysis

/-! ## Entry points -/

namespace EntryPoint

/-- The entry of an entry point in the traces of a corpus. -/
def traceEntry (conventions : Conventions) (index : Index) (root : EntryPoint) : String × Trace :=
  (root.signature, (Walk.complete conventions index root.signature root.baseFqn).trace)

/-- The traces of the kept ones of some entry points, in the order of all of them. -/
def traceTable (conventions : Conventions) (index : Index) (roots kept : List EntryPoint) :
    Table String Trace :=
  (Table.ofList (kept.map (traceEntry conventions index))).select (roots.map (·.signature))

/-- Without late entry points the traces are those of all walks. -/
theorem traceTable_self (conventions : Conventions) (index : Index) (roots : List EntryPoint) :
    traceTable conventions index roots roots =
      Table.ofList (roots.map (traceEntry conventions index)) := by
  have hselect := Table.select_ofList (roots.map (traceEntry conventions index))
  rw [List.map_map] at hselect
  exact hselect

/-- Every trace is that of a kept entry point. -/
theorem exists_of_mem_traceTable {roots kept : List EntryPoint} {e : String × Trace}
    (he : e ∈ traceTable conventions index roots kept) :
    ∃ root ∈ kept, e = root.traceEntry conventions index := by
  obtain ⟨root, hroot, rfl⟩ :=
    List.mem_map.mp (Table.mem_of_mem_ofList (Table.mem_of_mem_select he))
  exact ⟨root, hroot, rfl⟩

/-- The signatures of the kept entry points have traces, in the order of all of them. -/
theorem keys_traceTable (conventions : Conventions) (index : Index) (roots kept : List EntryPoint) :
    (traceTable conventions index roots kept).keys =
      ((roots.map (·.signature)).filter (· ∈ kept.map (·.signature))).eraseDups := by
  rw [traceTable, Table.keys_select]
  refine congrArg List.eraseDups (List.filter_congr fun signature _ => ?_)
  rw [Bool.eq_iff_iff, Table.has_iff, Table.keys_ofList, List.mem_eraseDups, List.map_map,
    decide_eq_true_eq]
  rfl

/-- The trace of a signature is that of a kept entry point with it. -/
theorem exists_of_find?_traceTable {roots kept : List EntryPoint} {signature : String} {t : Trace}
    (h : (traceTable conventions index roots kept).find? signature = some t) :
    ∃ root ∈ kept, root.signature = signature ∧ (root.traceEntry conventions index).2 = t := by
  obtain ⟨root, hroot, heq⟩ := exists_of_mem_traceTable (Table.mem_of_find? h)
  exact ⟨root, hroot, (congrArg Prod.fst heq).symm, (congrArg Prod.snd heq).symm⟩

/-- No trace of an entry point is empty. -/
theorem filter_traceTable (hw : conventions.WellTyped) (h : index.WellFormed)
    (roots kept : List EntryPoint) :
    ((traceTable conventions index roots kept).filter fun e => !e.2.steps.isEmpty) =
      traceTable conventions index roots kept := by
  refine List.filter_eq_self.mpr fun e he => ?_
  obtain ⟨root, -, rfl⟩ := exists_of_mem_traceTable he
  simp [traceEntry, Walk.steps_complete_ne_nil hw h]

/-- `t` is the trace of a walk that covers what can be reached from the method which the index keeps
for the entry point. -/
def HasTrace (conventions : Conventions) (index : Index) (root : EntryPoint) (t : Trace) : Prop :=
  ∃ r ms w, index.method? root.baseFqn = some r ∧ Walk.Covers conventions index r ms w ∧ w.trace = t

variable {root : EntryPoint}

/-- A tidy entry point leads to the method that the index keeps for it. -/
theorem DeclaredBy.start? (htidy : Corpus.TidyNames types) (hroot : root.DeclaredBy types) :
    (Index.ofTypes types).start? root.baseFqn =
      (Index.ofTypes types).method? root.baseFqn := by
  obtain ⟨r, hr⟩ := hroot.exists_method?
  simp [Index.start?, hroot.callee?_baseFqn htidy, Index.locate?, hr]

theorem DeclaredBy.exists_covers (htypes : Corpus.WellTyped types)
    (htidy : Corpus.TidyNames types) (hw : conventions.WellTyped) (hroot : root.DeclaredBy types)
    (entry : String) :
    ∃ r ms, (Index.ofTypes types).method? root.baseFqn = some r ∧
      Walk.Covers conventions (.ofTypes types) r ms
        (Walk.complete conventions (.ofTypes types) entry root.baseFqn) := by
  have hstart := hroot.start? htidy
  rcases Walk.complete_cases hw (Index.wellFormed_ofTypes htypes) entry root.baseFqn with
    ⟨hnone, -⟩ | ⟨r, ms, hr, hc⟩
  · obtain ⟨r, hr⟩ := hroot.exists_method?
    rw [hstart, hr] at hnone
    cases hnone
  · exact ⟨r, ms, hstart.symm.trans hr, hc⟩

end EntryPoint

/-- The calls that are taken down for an entry point. -/
def EntryPoint.heard (conventions : Conventions) (index : Index) (root : EntryPoint) :
    Fate → List Datum
  | .traced => Walk.failures conventions index root.signature root.baseFqn
  | .omitted count =>
    ((Walk.complete conventions index root.signature root.baseFqn).reports.take count).filterMap
      Report.call?
  | .refused => []

namespace Settings

open Analysis

variable {s : Settings} {waits : Waits} {roots : List EntryPoint}

/-! ## Entry points that are late -/

/-- The entry points of a run that are not left out. -/
def keptRoots (s : Settings) (waits : Waits) (roots : List EntryPoint) : List EntryPoint :=
  ((s.fates waits roots).filter (·.2 = .traced)).map Prod.fst

/-- The run would have to wait for a walk for longer than is possible. -/
def refuses (s : Settings) (waits : Waits) (roots : List EntryPoint) : Bool :=
  (s.fates waits roots).any (·.2 = .refused)

theorem fst_fates (s : Settings) (waits : Waits) (roots : List EntryPoint) :
    (s.fates waits roots).map Prod.fst = roots := by
  rw [fates, List.mapIdx_eq_zipIdx_map, List.map_map]
  exact List.zipIdx_map_fst 0 roots

theorem keptRoots_subset (s : Settings) (waits : Waits) (roots : List EntryPoint) :
    s.keptRoots waits roots ⊆ roots := by
  intro root hroot
  rw [← fst_fates s waits roots]
  exact List.map_subset _ (List.filter_subset_self _) hroot

section Punctual

variable (h : s.isParallel roots = false ∨ s.rootTimeout = .null ∨ ∀ i, waits i = .ended)
include h

/-- Every entry point is traced in a run without workers or without a time limit, and in one whose
walks have all ended when they are asked for. -/
theorem fates_eq_traced : s.fates waits roots = roots.map fun root => (root, .traced) := by
  have htraced : ∀ i, (if s.isParallel roots then s.fate (waits i) else .traced) = .traced := by
    intro i
    rcases h with hone | hnull | hended
    · simp [hone]
    · cases hwait : waits i <;> simp [fate, hnull, Datum.exceeds, Datum.compareInt]
    · simp [hended, fate]
  have hpair : (fun r : EntryPoint × Nat => (r.1, Fate.traced)) =
      (fun root => (root, .traced)) ∘ Prod.fst := rfl
  simp only [fates, htraced, List.mapIdx_eq_zipIdx_map]
  rw [hpair, ← List.map_map, List.zipIdx_map_fst]

theorem keptRoots_eq_self : s.keptRoots waits roots = roots := by
  simp [keptRoots, fates_eq_traced h, List.filter_map, Function.comp_def]

theorem refuses_eq_false : s.refuses waits roots = false := by
  simp [refuses, fates_eq_traced h]

end Punctual

/-! ## The analysis of a corpus -/

/-- The entry of an entry point in the traces, unless it is left out. -/
def keptEntry (conventions : Conventions) (index : Index) (r : EntryPoint × Fate) :
    Option (String × Trace) :=
  if r.2 = .traced then some (r.1.traceEntry conventions index) else none

theorem filterMap_keptEntry (s : Settings) (waits : Waits) (roots : List EntryPoint) :
    (s.fates waits roots).filterMap (keptEntry conventions index) =
      (s.keptRoots waits roots).map (EntryPoint.traceEntry conventions index) := by
  rw [keptRoots]
  induction s.fates waits roots with
  | nil => rfl
  | cons r rs ih => by_cases htraced : r.2 = .traced <;> simp [keptEntry, htraced, ih]

/-- An entry point has its entry, if it is not left out, and some of what its walk reports is taken
down. -/
theorem warns_traceRoot (hw : conventions.WellTyped) (h : index.WellFormed) (s : Settings)
    (byWorker : Bool) (root : EntryPoint) {fate : Fate} (hfate : fate ≠ .refused) :
    Warns (s.traceRoot byWorker conventions index root fate)
      (keptEntry conventions index (root, fate)) (root.heard conventions index fate) := by
  cases fate with
  | traced => exact (warns_trace hw h _ _ _).bind_quiet (.pure _)
  | omitted count =>
    have hnotes := warns_overhear hw h root.signature root.baseFqn count
    exact hnotes.bind_quiet (.quiet_bind (.log _ _ _) (.pure _))
  | refused => exact absurd rfl hfate

variable (htypes : Corpus.WellTyped types) (hconventions : s.conventions = .ok conventions)
  (hw : conventions.WellTyped) (hroots : entryPoints s.entryKinds types = .ok roots)
include htypes hconventions hw hroots

/-- The analysis of a corpus yields the traces of the walks from its entry points that are not left
out, whatever was analysed before, and warns of what the walks report. -/
theorem warns_traceEntryPoints (hwaits : s.refuses waits roots = false) :
    Warns (s.traceEntryPoints waits (some types))
      (EntryPoint.traceTable conventions (.ofTypes types) roots (s.keptRoots waits roots))
      ((s.fates waits roots).flatMap fun r => r.1.heard conventions (.ofTypes types) r.2) := by
  have h := Index.wellFormed_ofTypes htypes
  have hentries : Warns ((s.fates waits roots).mapM fun r =>
      s.traceRoot (s.isParallel roots) conventions (.ofTypes types) r.1 r.2)
      ((s.fates waits roots).map (keptEntry conventions (.ofTypes types)))
      ((s.fates waits roots).flatMap fun r => r.1.heard conventions (.ofTypes types) r.2) :=
    .mapM_map fun r hr =>
      warns_traceRoot hw h s _ _ (by simpa using List.any_eq_false.mp hwaits r hr)
  unfold traceEntryPoints
  refine .quiet_bind (.log _ _ _) ?_
  refine .quiet_bind (.ofResult (Index.build_eq_ofTypes htypes)) ?_
  refine .quiet_bind (.ofResult hconventions) ?_
  refine .quiet_bind (.ofResult hroots) ?_
  refine .quiet_bind (.log _ _ _) ?_
  refine hentries.bind_quiet (.quiet_bind (.forIn fun root _ => ?_) ?_)
  · split
    · exact .quiet_bind (.log _ _ _) (.pure _)
    · exact .pure _
  · rw [List.filterMap_map, Function.id_comp, filterMap_keptEntry, ← EntryPoint.traceTable,
      EntryPoint.filter_traceTable hw h]
    exact .quiet_bind (.log _ _ _) (.pure _)

/-- The analysis of a corpus that cannot wait for a walk ends in a fault,
whatever was analysed before. -/
theorem endsIn_traceEntryPoints (hwaits : s.refuses waits roots = true) :
    EndsIn (s.traceEntryPoints waits (some types)) .waitTooLong := by
  have h := Index.wellFormed_ofTypes htypes
  have hsome : ∃ r ∈ s.fates waits roots, (decide (r.2 = .refused)) = true :=
    List.any_eq_true.mp hwaits
  obtain ⟨r, hfirst⟩ := Option.isSome_iff_exists.mp (List.find?_isSome.mpr hsome)
  obtain ⟨hr, before, after, hsplit, hbefore⟩ := List.find?_eq_some_iff_append.mp hfirst
  have hentries : EndsIn ((s.fates waits roots).mapM fun r =>
      s.traceRoot (s.isParallel roots) conventions (.ofTypes types) r.1 r.2) .waitTooLong := by
    rw [hsplit]
    refine .mapM (fun r hr => ⟨_, (warns_traceRoot hw h s _ _ ?_).yields⟩) ?_
    · simpa using hbefore r hr
    · rw [of_decide_eq_true hr]
      exact .throw _
  unfold traceEntryPoints
  refine .of_bind (Warns.log _ _ _).yields ?_
  refine .of_bind (Warns.ofResult (Index.build_eq_ofTypes htypes)).yields ?_
  refine .of_bind (Warns.ofResult hconventions).yields ?_
  refine .of_bind (Warns.ofResult hroots).yields ?_
  refine .of_bind (Warns.log _ _ _).yields ?_
  exact hentries.bind _

/-- The analysis gives every entry point of a corpus with plain names that is not left out a trace,
and no other traces, whatever was analysed before. -/
theorem exists_yields_traceEntryPoints (hplain : Corpus.PlainNames types)
    (hwaits : s.refuses waits roots = false) :
    ∃ traces, Yields (s.traceEntryPoints waits (some types)) traces ∧
      (∀ root ∈ s.keptRoots waits roots, ∃ t ∈ traces.values,
        root.HasTrace conventions (.ofTypes types) t) ∧
      ∀ t ∈ traces.values, ∃ root ∈ s.keptRoots waits roots,
        root.HasTrace conventions (.ofTypes types) t := by
  have hsub := keptRoots_subset s waits roots
  obtain ⟨roots', hroots', hdeclared⟩ := gives_entryPoints htypes s.entryKinds
  cases hroots.symm.trans hroots'
  have hhas : ∀ root ∈ roots, root.HasTrace conventions (.ofTypes types)
      (root.traceEntry conventions (.ofTypes types)).2 := by
    intro root hroot
    obtain ⟨r, ms, hr, hc⟩ :=
      (hdeclared root hroot).exists_covers htypes hplain.tidyNames hw root.signature
    exact ⟨r, ms, _, hr, hc, rfl⟩
  refine ⟨_, (warns_traceEntryPoints htypes hconventions hw hroots hwaits).yields, ?_, ?_⟩
  · intro root hroot
    have hkey : root.signature ∈ (EntryPoint.traceTable conventions (.ofTypes types) roots
        (s.keptRoots waits roots)).keys := by
      rw [EntryPoint.keys_traceTable, List.mem_eraseDups, List.mem_filter, decide_eq_true_eq]
      exact ⟨List.mem_map_of_mem (hsub hroot), List.mem_map_of_mem hroot⟩
    obtain ⟨t, hfind⟩ := Table.mem_keys_iff.mp hkey
    -- the trace may be that of another entry point with the same signature
    obtain ⟨other, hother, hsignature, rfl⟩ := EntryPoint.exists_of_find?_traceTable hfind
    have hbase := (hdeclared other (hsub hother)).baseFqn_eq hplain.tidyNames
      (hdeclared root (hsub hroot)) hsignature
    obtain ⟨r, ms, w, hr, hc, htrace⟩ := hhas other (hsub hother)
    exact ⟨_, Table.mem_values_of_find? hfind, r, ms, w, hbase ▸ hr, hc, htrace⟩
  · intro t ht
    obtain ⟨e, he, rfl⟩ := List.mem_map.mp ht
    obtain ⟨root, hroot, rfl⟩ := EntryPoint.exists_of_mem_traceTable he
    exact ⟨root, hroot, hhas root (hsub hroot)⟩

end Settings

/-! ## A run with a late walk -/

/-- The entry points of the sample. -/
def Corpus.sampleRoots : List EntryPoint :=
  [⟨"app.Shop.buy()", "app.Shop.buy"⟩, ⟨"app.Shop.refund()", "app.Shop.refund"⟩]

theorem Corpus.entryPoints_sample :
    entryPoints Settings.default.entryKinds sample = .ok sampleRoots := by
  decide +kernel

/-- Two workers and a time limit of one second. -/
def Settings.hurried : Settings :=
  { default with maxWorkers := .int 2, rootTimeout := .int 1 }

/-- Only the walk from the second entry point is late, before it has reported anything. -/
def Waits.secondLate : Waits := fun i => if i = 1 then .late 0 else .ended

theorem Settings.keptRoots_secondLate :
    hurried.keptRoots .secondLate Corpus.sampleRoots = [⟨"app.Shop.buy()", "app.Shop.buy"⟩] := by
  decide

theorem Settings.refuses_secondLate :
    hurried.refuses .secondLate Corpus.sampleRoots = false := by
  decide

end EntryFlow
