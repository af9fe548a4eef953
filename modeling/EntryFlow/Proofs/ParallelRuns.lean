import EntryFlow.Proofs.Interleaving
import Mathlib.Data.List.Sort
import Mathlib.Data.String.Basic

/-!
# Runs of one analyzer that workers share

An analyzer goes through corpora one after the other, and workers share the entry points of each of
them. However their steps are interleaved, each run ends with the traces and the unresolved calls
that it has when the entry points are taken one by one. The calls that were warned of tell which
calls cannot be resolved, and each of them was seen for the first time once in all runs.

## Main definitions

* `Settings.FailsToResolve`: a call on the way from some entry point cannot be resolved.
* `Settings.Runs`: runs of some workers over corpora, each in any interleaving.
* `Settings.analyzeAll`: the same runs with the entry points taken one by one.
* `Journal.Records`: what a journal has warned of after such runs.

## Main statements

* `Settings.ends_run`: what a run comes to, in any interleaving.
* `Settings.Runs.records`, `Settings.exists_analyzeAll`: both sorts of runs leave such a journal.
* `Settings.runs_interleaved`: runs that workers share end, and agree with those that they do not.
-/

namespace EntryFlow

variable {conventions : Conventions} {types : List TypeRecord} {corpora : List (List TypeRecord)}

/-- Every call of the corpus is a text. -/
def Corpus.TextCalls (types : List TypeRecord) : Prop :=
  ∀ t ∈ types, ∀ m ∈ t.methodList, ∀ call ∈ m.callList, call.isText

instance (types : List TypeRecord) : Decidable (Corpus.TextCalls types) :=
  inferInstanceAs (Decidable (∀ t ∈ types, ∀ m ∈ t.methodList, ∀ call ∈ m.callList, call.isText))

theorem Corpus.TextCalls.isText_of_mem (h : TextCalls types) {m : Method}
    (hm : m ∈ (Index.ofTypes types).methodList) {call : Datum} (hcall : call ∈ m.callList) :
    call.isText := by
  obtain ⟨key, hkey⟩ := Index.mem_methodList_iff.mp hm
  obtain ⟨t, ht, n, hn, heq⟩ := Index.exists_of_mem_methods hkey
  cases heq
  exact h t ht n hn call hcall

/-! ## Sorted calls -/

namespace Journal

/-- The unresolved calls are those that were warned of, in order and each once. -/
theorem exists_unresolvedCalls {j : Journal} (hnodup : j.warned.Nodup)
    (htext : ∀ call ∈ j.warned, call.isText) :
    ∃ texts : List String, j.unresolvedCalls = .ok (texts.map .text) ∧ texts.Pairwise (· < ·) ∧
      ∀ call, call ∈ texts ↔ .text call ∈ j.warned := by
  obtain ⟨calls, hcalls⟩ := Datum.exists_eq_map_text htext
  refine ⟨calls.mergeSort fun a b => decide (a ≤ b), ?_, ?_, ?_⟩
  · rw [unresolvedCalls, hcalls]
    match calls with
    | [] => simp
    | [call] => simp
    | call :: other :: rest =>
      simp only [List.map_cons]
      rw [← List.map_cons, ← List.map_cons, Datum.mapM_text?_map]
  · have hle := List.pairwise_mergeSort' (· ≤ ·) calls
    rw [hcalls] at hnodup
    have hne := (List.mergeSort_perm calls fun a b => decide (a ≤ b)).nodup_iff.mpr hnodup.of_map
    exact hle.imp₂ (fun _ _ hle hne => lt_of_le_of_ne hle hne) hne
  · simp [hcalls]

end Journal

/-! ## Runs -/

namespace Settings

/-- The analysis of the corpus comes to a call that cannot be resolved. -/
def FailsToResolve (s : Settings) (types : List TypeRecord) (call : Datum) : Prop :=
  ∃ plan, s.plan types = .ok plan ∧ ∃ root ∈ plan.roots,
    ∃ r, plan.index.start? root.baseFqn = some r ∧
      ∃ m, r.Reaches plan.conventions plan.index m ∧
        ∃ site ∈ m.sites plan.conventions plan.index,
          site.call = call ∧ site.resolution = .unresolved

/-- One step of a run that some workers share. -/
def Step (s : Settings) (workers : Nat) (plan : Plan) : Pool → Pool → Prop :=
  Pool.Step plan.conventions plan.index ((s.withWorkers workers).isParallel plan.roots) workers

/-- Runs of one analyzer over corpora, each in some interleaving that cannot go on, with what each
of them leaves and the journal in the end. -/
inductive Runs (s : Settings) (workers : Nat) :
    List (List TypeRecord) → List Pool → Journal → Prop where
  | nil : Runs s workers [] [] .empty
  | snoc {corpora pools j types plan p} : Runs s workers corpora pools j →
      s.plan types = .ok plan → Relation.ReflTransGen (s.Step workers plan) (plan.pool j) p →
      (∀ q, ¬ s.Step workers plan p q) →
      Runs s workers (corpora ++ [types]) (pools ++ [p]) p.journal

/-- Runs of one analyzer over corpora with the entry points taken one by one. Each of them gives the
traces and the calls that could not be resolved until then. -/
def analyzeAll (s : Settings) (corpora : List (List TypeRecord)) :
    Analysis (List (Table String Trace × List Datum)) :=
  corpora.mapM fun types => do
    let traces ← s.traceEntryPoints .none (some types)
    return (traces, ← Analysis.ofResult (← get).unresolvedCalls)

end Settings

/-- The journal has warned once of every call at which the analysis of some corpora fails. -/
structure Journal.Records (s : Settings) (corpora : List (List TypeRecord)) (j : Journal) :
    Prop where
  nodup : j.warned.Nodup
  mem : ∀ call, call ∈ j.warned ↔ ∃ types ∈ corpora, s.FailsToResolve types call

namespace Journal.Records

variable {s : Settings} {j j' : Journal}

theorem empty : Journal.empty.Records s [] where
  nodup := List.nodup_nil
  mem call := by simp [Journal.empty]

theorem snoc (hj : j.Records s corpora) (hnodup : j.warned.Nodup → j'.warned.Nodup)
    (hmem : ∀ call, call ∈ j'.warned ↔ call ∈ j.warned ∨ s.FailsToResolve types call) :
    j'.Records s (corpora ++ [types]) where
  nodup := hnodup hj.nodup
  mem call := by simp [hmem, hj.mem, or_and_right, exists_or]

variable (htext : ∀ types ∈ corpora, ∀ call, s.FailsToResolve types call → call.isText)
include htext

/-- The unresolved calls are those at which some analysis fails, in order and each once. -/
theorem exists_unresolvedCalls (hj : j.Records s corpora) :
    ∃ texts : List String, j.unresolvedCalls = .ok (texts.map .text) ∧ texts.Pairwise (· < ·) ∧
      ∀ call, call ∈ texts ↔ ∃ types ∈ corpora, s.FailsToResolve types (.text call) := by
  have hwarned : ∀ call ∈ j.warned, call.isText := by
    intro call hcall
    obtain ⟨types, hmem, hfails⟩ := (hj.mem call).mp hcall
    exact htext types hmem call hfails
  obtain ⟨texts, heq, hsorted, hmem⟩ := Journal.exists_unresolvedCalls hj.nodup hwarned
  exact ⟨texts, heq, hsorted, fun call => (hmem call).trans (hj.mem (.text call))⟩

/-- The unresolved calls do not depend on the order in which they were warned of. -/
theorem unresolvedCalls_eq (hj : j.Records s corpora) (hj' : j'.Records s corpora) :
    j.unresolvedCalls = j'.unresolvedCalls := by
  obtain ⟨texts, heq, hsorted, hmem⟩ := hj.exists_unresolvedCalls htext
  obtain ⟨texts', heq', hsorted', hmem'⟩ := hj'.exists_unresolvedCalls htext
  rw [heq, heq', hsorted.eq_of_mem_iff hsorted' fun call => (hmem call).trans (hmem' call).symm]

end Journal.Records

namespace Settings

variable {s : Settings} {workers : Nat} {j : Journal} {pools : List Pool} {p : Pool}

/-! ## A single run -/

theorem plan_eq (hconventions : s.conventions = .ok conventions)
    (htypes : Corpus.WellTyped types) {roots : List EntryPoint}
    (hroots : entryPoints s.entryKinds types = .ok roots) :
    s.plan types = .ok ⟨conventions, .ofTypes types, roots⟩ := by
  rw [plan, Index.build_eq_ofTypes htypes, hconventions, hroots]
  rfl

theorem exists_plan (hconventions : s.conventions = .ok conventions)
    (htypes : Corpus.WellTyped types) : ∃ roots, entryPoints s.entryKinds types = .ok roots ∧
      s.plan types = .ok ⟨conventions, .ofTypes types, roots⟩ := by
  obtain ⟨roots, hroots, -⟩ := gives_entryPoints htypes s.entryKinds
  exact ⟨roots, hroots, plan_eq hconventions htypes hroots⟩

section Run

variable {roots : List EntryPoint} (hw : conventions.WellTyped) (htypes : Corpus.WellTyped types)
  (hplan : s.plan types = .ok ⟨conventions, .ofTypes types, roots⟩)

include hplan in
/-- A call at which the analysis fails is one of the corpus. -/
theorem FailsToResolve.isText (htexts : Corpus.TextCalls types) {call : Datum}
    (hfails : s.FailsToResolve types call) : call.isText := by
  obtain ⟨plan, hplan', root, -, r, hr, m, hm, site, hsite, rfl, -⟩ := hfails
  cases hplan.symm.trans hplan'
  obtain ⟨-, hcall, -⟩ := Method.mem_sites_iff.mp hsite
  exact htexts.isText_of_mem (hm.mem_methodList (Index.mem_methodList_of_start? hr)) hcall

include hw htypes hplan

/-- The analysis of a corpus fails where the walk from some entry point does. -/
theorem failsToResolve_iff {call : Datum} :
    s.FailsToResolve types call ↔ ∃ root ∈ roots,
      call ∈ Walk.failures conventions (.ofTypes types) root.signature root.baseFqn := by
  simp only [FailsToResolve, hplan, Except.ok.injEq, exists_eq_left',
    Walk.mem_failures_iff hw (Index.wellFormed_ofTypes htypes)]

/-- A run that some workers share ends with the traces of all walks, and warns for the first time of
what is new in the journal. -/
theorem ends_run (hworkers : 1 ≤ workers)
    (hreaches : Relation.ReflTransGen (s.Step workers ⟨conventions, .ofTypes types, roots⟩)
      (.start (.ofTypes types) roots j) p)
    (hend : ∀ q, ¬ s.Step workers ⟨conventions, .ofTypes types, roots⟩ p q) :
    p.isDone = true ∧
      p.traces =
        .ok (Table.ofList (roots.map (EntryPoint.traceEntry conventions (.ofTypes types)))) ∧
      p.journal.warned = j.warned ++ p.firsts ∧
      (j.warned.Nodup → p.journal.warned.Nodup) ∧
      ∀ call, call ∈ p.journal.warned ↔ call ∈ j.warned ∨ s.FailsToResolve types call := by
  have h := Index.wellFormed_ofTypes htypes
  have hp := (Pool.OnCourse.start hw h roots j).reaches hw h hreaches
  have hdone : p.isDone = true := by
    by_contra hopen
    obtain ⟨q, hstep⟩ := Pool.exists_step conventions (.ofTypes types)
      ((s.withWorkers workers).isParallel roots) hworkers (Bool.eq_false_of_not_eq_true hopen)
    exact hend q hstep
  refine ⟨hdone, hp.traces_eq hw h hdone, hp.firsts, hp.nodup, fun call => ?_⟩
  rw [failsToResolve_iff hw htypes hplan, hp.mem_warned hdone]

/-- A run with the entry points taken one by one comes to the same. -/
theorem exists_run_traceEntryPoints (hconventions : s.conventions = .ok conventions)
    (hroots : entryPoints s.entryKinds types = .ok roots) (n : Nat) (j : Journal) :
    ∃ j', ((s.withWorkers n).traceEntryPoints .none (some types)).run j =
        .ok (Table.ofList (roots.map (EntryPoint.traceEntry conventions (.ofTypes types)))) j' ∧
      (j.warned.Nodup → j'.warned.Nodup) ∧
      ∀ call, call ∈ j'.warned ↔ call ∈ j.warned ∨ s.FailsToResolve types call := by
  have hended : ∀ i, Waits.none i = .ended := fun _ => rfl
  obtain ⟨j', hrun, hwarned⟩ := warns_traceEntryPoints (s := s.withWorkers n) htypes hconventions hw
    hroots (refuses_eq_false (.inr (.inr hended))) j
  rw [keptRoots_eq_self (.inr (.inr hended)), EntryPoint.traceTable_self] at hrun
  rw [fates_eq_traced (.inr (.inr hended)), List.flatMap_map] at hwarned
  refine ⟨j', hrun, fun hnodup => ?_, fun call => ?_⟩
  · rw [hwarned]
    exact Journal.nodup_enter hnodup _
  · rw [hwarned, Journal.mem_enter, failsToResolve_iff hw htypes hplan, List.mem_flatMap]
    rfl

end Run

theorem Runs.length_eq (hruns : s.Runs workers corpora pools j) :
    corpora.length = pools.length := by
  induction hruns with
  | nil => rfl
  | snoc _ _ _ _ ih => simp [ih]

/-- A run is the last one of the runs up to it. -/
theorem Runs.take (hruns : s.Runs workers corpora pools j) {i : Nat} (hp : pools[i]? = some p) :
    s.Runs workers (corpora.take (i + 1)) (pools.take (i + 1)) p.journal := by
  induction hruns with
  | nil => simp at hp
  | @snoc corpora pools j types plan last hruns hplan hreaches hend ih =>
    have hlength := hruns.length_eq
    rcases Nat.lt_trichotomy i pools.length with hlt | rfl | hgt
    · rw [List.getElem?_append_left hlt] at hp
      rw [List.take_append_of_le_length (by omega), List.take_append_of_le_length hlt]
      exact ih hp
    · rw [List.getElem?_concat_length, Option.some.injEq] at hp
      subst hp
      rw [List.take_of_length_le (by simp [hlength]), List.take_of_length_le (by simp)]
      exact .snoc hruns hplan hreaches hend
    · rw [List.getElem?_eq_none (by simp; omega)] at hp
      cases hp

theorem run_analyzeAll_concat {start j' : Journal} {traces : Table String Trace}
    {calls : List Datum} {outcomes : List (Table String Trace × List Datum)}
    (hall : (s.analyzeAll corpora).run start = .ok outcomes j)
    (hrun : (s.traceEntryPoints .none (some types)).run j = .ok traces j')
    (hcalls : j'.unresolvedCalls = .ok calls) :
    (s.analyzeAll (corpora ++ [types])).run start = .ok (outcomes ++ [(traces, calls)]) j' := by
  have hlast : (s.analyzeAll [types]).run j = .ok [(traces, calls)] j' := by
    rw [analyzeAll, List.mapM_cons, EStateM.run_bind, EStateM.run_bind, hrun]
    simp only [EStateM.run_bind, EStateM.run_get, hcalls]
    rfl
  rw [analyzeAll, List.mapM_append, EStateM.run_bind]
  rw [analyzeAll] at hall hlast
  rw [hall]
  simp only [EStateM.run_bind, hlast]
  rfl

section Runs

variable (hconventions : s.conventions = .ok conventions) (hw : conventions.WellTyped)
  (htypes : ∀ types ∈ corpora, Corpus.WellTyped types)
include hconventions hw htypes

theorem exists_runs (workers : Nat) : ∃ pools j, s.Runs workers corpora pools j := by
  induction corpora using List.reverseRecOn with
  | nil => exact ⟨[], .empty, .nil⟩
  | append_singleton corpora types ih =>
    obtain ⟨hcorpora, htypes⟩ := List.forall_mem_append.mp htypes
    obtain ⟨pools, j, hruns⟩ := ih hcorpora
    obtain ⟨roots, -, hplan⟩ := exists_plan hconventions (htypes types (by simp))
    have h := Index.wellFormed_ofTypes (htypes types (by simp))
    obtain ⟨p, hreaches, hend⟩ := (Pool.OnCourse.start hw h roots j).exists_reaches
      ((s.withWorkers workers).isParallel roots) workers hw h
    exact ⟨_, _, .snoc hruns hplan hreaches hend⟩

omit hw in
theorem isText_of_failsToResolve (htexts : ∀ types ∈ corpora, Corpus.TextCalls types) :
    ∀ types ∈ corpora, ∀ call, s.FailsToResolve types call → call.isText := by
  intro types hmem call hfails
  obtain ⟨roots, -, hplan⟩ := exists_plan hconventions (htypes types hmem)
  exact hfails.isText hplan (htexts types hmem)

variable (hworkers : 1 ≤ workers) (hruns : s.Runs workers corpora pools j)
include hworkers hruns

/-- What was seen for the first time in all runs is what the journal has warned of. -/
theorem Runs.records : j.Records s corpora ∧ j.warned = pools.flatMap Pool.firsts := by
  induction hruns with
  | nil => exact ⟨.empty, rfl⟩
  | snoc hruns hplan hreaches hend ih =>
    obtain ⟨hcorpora, hlast⟩ := List.forall_mem_append.mp htypes
    obtain ⟨hj, hfirsts⟩ := ih hcorpora
    have htypes := hlast _ List.mem_cons_self
    obtain ⟨roots, hroots, hplan'⟩ := exists_plan hconventions htypes
    cases hplan.symm.trans hplan'
    obtain ⟨-, -, hwarned, hnodup, hmem⟩ := ends_run hw htypes hplan hworkers hreaches hend
    exact ⟨hj.snoc hnodup hmem, by rw [hwarned, hfirsts]; simp⟩

/-- With the entry points taken one by one, every run comes to the same. -/
theorem Runs.exists_analyzeAll (htexts : ∀ types ∈ corpora, Corpus.TextCalls types) (n : Nat) :
    ∃ outcomes j', ((s.withWorkers n).analyzeAll corpora).run .empty = .ok outcomes j' ∧
      j'.Records s corpora ∧
      List.Forall₂ (fun p outcome => p.isDone = true ∧ p.traces = .ok outcome.1 ∧
        p.journal.unresolvedCalls = .ok outcome.2) pools outcomes := by
  induction hruns with
  | nil => exact ⟨[], .empty, rfl, .empty, .nil⟩
  | @snoc corpora pools j types plan p hruns hplan hreaches hend ih =>
    obtain ⟨hcorpora, hlast⟩ := List.forall_mem_append.mp htypes
    obtain ⟨hcorporatexts, -⟩ := List.forall_mem_append.mp htexts
    have hfails := isText_of_failsToResolve hconventions htypes htexts
    have htypes := hlast _ List.mem_cons_self
    obtain ⟨hj, -⟩ := Runs.records hconventions hw hcorpora hworkers hruns
    obtain ⟨outcomes, j', hall, hj', hagree⟩ := ih hcorpora hcorporatexts
    obtain ⟨roots, hroots, hplan'⟩ := exists_plan hconventions htypes
    cases hplan.symm.trans hplan'
    obtain ⟨hdone, htraces, -, hnodup, hmem⟩ := ends_run hw htypes hplan hworkers hreaches hend
    obtain ⟨j'', hrun, hnodup', hmem'⟩ :=
      exists_run_traceEntryPoints hw htypes hplan hconventions hroots n j'
    have hshared := hj.snoc hnodup hmem
    have hsingle := hj'.snoc hnodup' hmem'
    obtain ⟨texts, hcalls, -⟩ := hsingle.exists_unresolvedCalls hfails
    have heq := hshared.unresolvedCalls_eq hfails hsingle
    refine ⟨_, j'', run_analyzeAll_concat hall hrun hcalls, hsingle, ?_⟩
    exact List.rel_append hagree (.cons ⟨hdone, htraces, heq.trans hcalls⟩ .nil)

end Runs

/-- One analyzer goes through corpora whose calls are texts, and workers share the entry points of
each. No interleaving of their steps goes on forever. In every interleaving, each run ends with all
tasks done, with the traces that it has when the entry points are taken one by one, in their order,
and with the same calls that could not be resolved: the sorted list of the calls at which a run so
far has failed. Each such call was seen for the first time once in all runs. -/
theorem runs_interleaved (hworkers : 1 ≤ workers) (hconventions : s.conventions = .ok conventions)
    (hw : conventions.WellTyped) (htypes : ∀ types ∈ corpora, Corpus.WellTyped types)
    (htexts : ∀ types ∈ corpora, Corpus.TextCalls types) :
    (∀ types ∈ corpora, ∃ plan, s.plan types = .ok plan ∧
      ∀ j, Acc (fun q p => s.Step workers plan p q) (plan.pool j)) ∧
    (∃ pools j, s.Runs workers corpora pools j) ∧
    ∀ pools j, s.Runs workers corpora pools j →
      (∀ n, ∃ outcomes j', ((s.withWorkers n).analyzeAll corpora).run .empty = .ok outcomes j' ∧
        List.Forall₂ (fun p outcome => p.isDone = true ∧ p.traces = .ok outcome.1 ∧
          p.journal.unresolvedCalls = .ok outcome.2) pools outcomes) ∧
      (∀ i p, pools[i]? = some p → ∃ texts : List String,
        p.journal.unresolvedCalls = .ok (texts.map .text) ∧ texts.Pairwise (· < ·) ∧
        ∀ call, call ∈ texts ↔
          ∃ types ∈ corpora.take (i + 1), s.FailsToResolve types (.text call)) ∧
      (pools.flatMap Pool.firsts).Nodup ∧
      ∀ call, call ∈ pools.flatMap Pool.firsts ↔ ∃ types ∈ corpora, s.FailsToResolve types call := by
  refine ⟨fun types hmem => ?_, exists_runs hconventions hw htypes workers,
    fun pools j hruns => ⟨fun n => ?_, fun i p hp => ?_, ?_⟩⟩
  · obtain ⟨roots, -, hplan⟩ := exists_plan hconventions (htypes types hmem)
    have h := Index.wellFormed_ofTypes (htypes types hmem)
    exact ⟨_, hplan, fun j => (Pool.OnCourse.start hw h roots j).acc _ workers hw h⟩
  · obtain ⟨outcomes, j', hrun, -, hagree⟩ :=
      hruns.exists_analyzeAll hconventions hw htypes hworkers htexts n
    exact ⟨outcomes, j', hrun, hagree⟩
  · have hsome : ∀ types ∈ corpora.take (i + 1), types ∈ corpora := fun _ => List.mem_of_mem_take
    obtain ⟨hj, -⟩ := (hruns.take hp).records hconventions hw
      (fun types hmem => htypes types (hsome types hmem)) hworkers
    exact hj.exists_unresolvedCalls fun types hmem =>
      isText_of_failsToResolve hconventions htypes htexts types (hsome types hmem)
  · obtain ⟨hj, hfirsts⟩ := hruns.records hconventions hw htypes hworkers
    rw [← hfirsts]
    exact ⟨hj.nodup, hj.mem⟩

theorem failsToResolve_gone : Settings.default.FailsToResolve Corpus.sample (.text "gone()") := by
  have hwell : Corpus.WellTyped Corpus.sample := by decide
  have hstart : (Index.ofTypes Corpus.sample).start? "app.Shop.refund" =
      some Corpus.sampleRefund := by
    decide +kernel
  have hsite : ⟨"app.Shop.refund()", .text "gone()", .unresolved⟩ ∈
      Corpus.sampleRefund.sites .default (Index.ofTypes Corpus.sample) :=
    Method.mem_sites_iff.mpr ⟨by decide +kernel, by decide, _, rfl, by decide +kernel⟩
  exact ⟨_, plan_eq rfl hwell Corpus.entryPoints_sample, _,
    List.mem_cons_of_mem _ List.mem_cons_self, Corpus.sampleRefund, hstart, Corpus.sampleRefund,
    .refl, _, hsite, rfl, rfl⟩

/-- When four workers go through the sample twice, they warn of `gone()` once. -/
theorem runs_interleaved_sample :
    (∃ pools j, Settings.default.Runs 4 [Corpus.sample, Corpus.sample] pools j) ∧
      ∀ pools j, Settings.default.Runs 4 [Corpus.sample, Corpus.sample] pools j →
        (pools.flatMap Pool.firsts).count (.text "gone()") = 1 := by
  have htypes : ∀ types ∈ [Corpus.sample, Corpus.sample], Corpus.WellTyped types := by decide
  have htexts : ∀ types ∈ [Corpus.sample, Corpus.sample], Corpus.TextCalls types := by decide
  have hconventions : Settings.default.conventions = .ok .default := rfl
  obtain ⟨-, hexists, hall⟩ :=
    runs_interleaved (show 1 ≤ 4 by decide) hconventions (by decide) htypes htexts
  refine ⟨hexists, fun pools j hruns => ?_⟩
  obtain ⟨-, -, hnodup, hmem⟩ := hall pools j hruns
  exact List.count_eq_one_of_mem hnodup ((hmem _).mpr ⟨_, List.mem_cons_self, failsToResolve_gone⟩)

end Settings

end EntryFlow
