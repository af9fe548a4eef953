import EntryFlow.Proofs.Discovery

/-!
# What the walk from a root covers

The walk from a root lists every method that can be reached from it, once, and accounts for every
call of these methods once. It lists no more because a method is entered through a call, and no less
because a chain of calls cannot leave the methods whose call sites were all looked at.

## Main definitions

* `Walk.Covers`: the state that the walk from a root comes to.

## Main statements

* `Walk.exists_covers`: the walk from a key whose method is found covers what can be reached.
* `Walk.extend_lists_reachable`: the steps of the trace are the methods that can be reached.
* `Walk.extend_accounts_calls`: steps, suppressed calls and reports account for every call.
-/

namespace EntryFlow.Walk

variable {conventions : Conventions} {index : Index}

/-- The state in which the calls of the root are looked at. -/
def rooted (entry base : String) (root : Method) (signature : String) : Walk :=
  (((start entry).visit base).visit root.baseFqn).push ⟨signature, none, false⟩

/-- `w` is what the walk from `root` comes to: it lists the methods `ms`, which are those that can
be reached, and accounts for each of their call sites once. -/
structure Covers (conventions : Conventions) (index : Index) (root : Method) (ms : List Method)
    (w : Walk) : Prop where
  listed : (expanded w.trace.steps).map .ok = ms.map Method.signature
  nodup : (ms.map Method.baseFqn).Nodup
  reached : ∀ m, m ∈ ms ↔ root.Reaches conventions index m
  first : ∃ signature later, root.signature = .ok signature ∧
    w.trace.steps = ⟨signature, none, false⟩ :: later
  anchored : Anchored w.trace.steps
  edges : (w.trace.edges ++ w.trace.suppressed).Perm
    ((ms.flatMap (Method.sites conventions index)).filterMap CallSite.edge?)
  leaves : (w.trace.steps.filter (·.terminal)).Perm
    ((ms.flatMap (Method.sites conventions index)).filterMap CallSite.leaf?)
  reports : w.reports.Perm
    ((ms.flatMap (Method.sites conventions index)).filterMap CallSite.report?)

theorem mem_visited_rooted {entry base other signature : String} {root : Method} :
    other ∈ (rooted entry base root signature).visited ↔ other = root.baseFqn ∨ other = base := by
  simp [rooted, mem_visited_visit, start]

theorem steps_rooted (entry base signature : String) (root : Method) :
    (rooted entry base root signature).trace.steps = [⟨signature, none, false⟩] := by
  simp [rooted, push, start, Trace.start]

namespace Discovers

variable {entry base signature : String} {root : Method} {ms : List Method} {w : Walk}

/-- The contributions of the call sites of the root and of all methods entered add up. -/
theorem perm_tally
    (hd : Discovers conventions index (rooted entry base root signature)
      (root.sites conventions index) ms w)
    {γ : Type} (tally : Walk → List γ) {part : CallSite → Option γ}
    (hlook : ∀ w s, (tally (w.look s)).Perm (tally w ++ (part s).toList))
    (hstart : tally (rooted entry base root signature) = []) :
    (tally w).Perm (((root :: ms).flatMap (Method.sites conventions index)).filterMap part) := by
  obtain ⟨order, hperm, horder⟩ := hd.looked
  rw [← List.flatMap_cons] at hperm
  have htally := perm_foldl_look hlook (rooted entry base root signature) order
  rw [← horder, hstart, List.nil_append] at htally
  exact htally.trans (hperm.filterMap part)

section Reached

variable (h : index.WellFormed) (hroot : index.locate? base = some root)
  (hd : Discovers conventions index (rooted entry base root signature)
    (root.sites conventions index) ms w)
include h hroot hd

/-- A method of the index that was visited is the root or was entered. -/
theorem mem_of_mem_visited {n : Method} (hn : n ∈ index.methodList)
    (hv : n.baseFqn ∈ w.visited) : n ∈ root :: ms := by
  rw [hd.visited, mem_visited_rooted] at hv
  rcases hv with (hv | rfl) | hv
  · have hmem := Index.mem_methodList_of_locate? hroot
    exact h.eq_of_baseFqn_eq hn hmem hv ▸ List.mem_cons_self
  · rw [h.locate?_baseFqn hn] at hroot
    exact Option.some.inj hroot ▸ List.mem_cons_self
  · obtain ⟨m, hm, heq⟩ := List.mem_map.mp hv
    exact h.eq_of_baseFqn_eq (hd.members m hm) hn heq ▸ List.mem_cons_of_mem _ hm

/-- No call leads out of the methods whose call sites were all looked at. -/
theorem mem_of_calls {m n : Method} (hm : m ∈ root :: ms) (hcalls : m.Calls conventions index n) :
    n ∈ root :: ms :=
  mem_of_mem_visited h hroot hd hcalls.mem_methodList (hd.mem_visited_of_calls hm hcalls)

theorem mem_iff_reaches {m : Method} : m ∈ root :: ms ↔ root.Reaches conventions index m := by
  constructor
  · intro hm
    rcases List.mem_cons.mp hm with rfl | hm
    · exact .refl
    · obtain ⟨s, hs, n, hn, hreached⟩ := hd.reached m hm
      exact .head ⟨s, hs, hn⟩ hreached
  · intro hreached
    induction hreached with
    | refl => exact List.mem_cons_self
    | tail _ hcalls ih => exact mem_of_calls h hroot hd ih hcalls

end Reached

/-- What is discovered from a root covers what can be reached from it. -/
theorem covers (h : index.WellFormed) (hroot : index.locate? base = some root)
    (hsignature : root.signature = .ok signature)
    (hd : Discovers conventions index (rooted entry base root signature)
      (root.sites conventions index) ms w)
    (hbegin : (rooted entry base root signature).trace.steps <+: w.trace.steps)
    (hanchored : Anchored w.trace.steps) : Covers conventions index root (root :: ms) w := by
  constructor
  case listed =>
    rw [hd.listed, steps_rooted]
    simp [expanded, hsignature]
  case nodup =>
    refine List.nodup_cons.mpr ⟨fun hmem => ?_, hd.nodup⟩
    exact hd.fresh _ hmem (mem_visited_rooted.mpr (.inl rfl))
  case reached => exact fun m => mem_iff_reaches h hroot hd
  case first =>
    obtain ⟨later, hlater⟩ := hbegin
    exact ⟨signature, later, hsignature, by rw [← hlater, steps_rooted]; rfl⟩
  case anchored => exact hanchored
  case edges =>
    refine hd.perm_tally (fun w => w.trace.edges ++ w.trace.suppressed) edges_look ?_
    simp [rooted, push, start, Trace.start, Trace.edges, Step.edge?]
  case leaves =>
    refine hd.perm_tally (fun w => w.trace.steps.filter (·.terminal))
      (fun w s => .of_eq (leaves_look w s)) ?_
    simp [steps_rooted]
  case reports =>
    refine hd.perm_tally Walk.reports (fun w s => .of_eq (reports_look w s)) ?_
    simp [rooted, push, visit, start]
    split <;> rfl

end Discovers

/-- The walk from a key whose method is found ends without a fault and covers what can be reached
from that method. -/
theorem exists_covers (hw : conventions.WellTyped) (h : index.WellFormed) (entry : String)
    {key base : String} {root : Method} (hkey : Call.callee? key = some base)
    (hroot : index.locate? base = some root) :
    ∃ (w : Walk) (ms : List Method),
      (start entry).extend conventions index (.text key) = (w, none) ∧
      Covers conventions index root ms w := by
  have htext : (Datum.text key).isOptionalText := rfl
  obtain ⟨w, hextend⟩ := exists_extend hw h (start entry) htext
  have hwalk : Datum.walkKey (.text key) = .ok (some base) := by rw [Datum.walkKey, hkey]
  cases extend_eq_none_iff.mp hextend with
  | blank hkey' => rw [hwalk] at hkey'; cases hkey'
  | known hkey' hold => cases hold
  | missing hkey' _ hm =>
    rw [hwalk] at hkey'
    cases hkey'
    rw [hroot] at hm
    cases hm
  | further _ _ _ hsteps => exact absurd rfl hsteps
  | first hkey' _ hm _ hsignature hframe hexplores =>
    rw [hwalk] at hkey'
    cases hkey'
    rw [hroot] at hm
    cases hm
    obtain ⟨hsites, hmethod⟩ := Method.sites_eq_of_frame conventions hsignature hframe
    obtain ⟨ms, hms⟩ := hexplores.discovers (hmethod ▸ hsignature)
    rw [← hsites] at hms
    refine ⟨w, root :: ms, hextend, hms.covers h hroot hsignature hexplores.prefix_steps ?_⟩
    refine hexplores.anchored (hmethod ▸ hsignature) ?_ ?_
    · simp [push, expanded]
    · simpa [push, start, Trace.start] using anchored_singleton _

variable {types : List TypeRecord}

/-- The walk from a root lists exactly the methods that can be reached from it, each once. It starts
with the root, the only step without a caller, and the caller of every later step is a method listed
before. -/
theorem extend_lists_reachable (htypes : Corpus.WellTyped types)
    (hindex : Index.build types = .ok index) (hconventions : conventions.WellTyped)
    (entry : String) {key base : String} {root : Method} (hkey : Call.callee? key = some base)
    (hroot : index.locate? base = some root) :
    ∃ (w : Walk) (ms : List Method),
      (start entry).extend conventions index (.text key) = (w, none) ∧
      (expanded w.trace.steps).map .ok = ms.map Method.signature ∧
      (ms.map Method.baseFqn).Nodup ∧
      (∀ m, m ∈ ms ↔ root.Reaches conventions index m) ∧
      ∃ signature later, root.signature = .ok signature ∧
        w.trace.steps = ⟨signature, none, false⟩ :: later ∧
        ∀ before s after, later = before ++ s :: after →
          ∃ caller ∈ signature :: expanded before, s.caller = some caller := by
  obtain ⟨w, ms, hextend, hc⟩ :=
    exists_covers hconventions (Index.wellFormed_of_build htypes hindex) entry hkey hroot
  obtain ⟨signature, later, hsignature, hsteps⟩ := hc.first
  refine ⟨w, ms, hextend, hc.listed, hc.nodup, hc.reached, signature, later, hsignature, hsteps, ?_⟩
  rintro before s after rfl
  exact hc.anchored (⟨signature, none, false⟩ :: before) s after hsteps (by simp)

theorem extend_lists_reachable_sample :
    ∃ (w : Walk) (ms : List Method), (start "entry").extend .default (Index.ofTypes Corpus.sample)
        (.text "app.Shop.buy(Item)") = (w, none) ∧
      (expanded w.trace.steps).map .ok = ms.map Method.signature ∧
      (ms.map Method.baseFqn).Nodup ∧
      (∀ m, m ∈ ms ↔
        Corpus.sampleRoot.Reaches .default (Index.ofTypes Corpus.sample) m) ∧
      ∃ signature later, Corpus.sampleRoot.signature = .ok signature ∧
        w.trace.steps = ⟨signature, none, false⟩ :: later ∧
        ∀ before s after, later = before ++ s :: after →
          ∃ caller ∈ signature :: expanded before, s.caller = some caller :=
  extend_lists_reachable (show Corpus.WellTyped Corpus.sample by decide)
    (Index.build_eq_ofTypes (by decide)) (by decide) "entry"
    (show Call.callee? "app.Shop.buy(Item)" = some "app.Shop.buy" by decide) (by decide)

/-- The walk from a root accounts for every call of the methods that it lists. The edges of the
trace and the suppressed calls are the calls that got a target, each as often as it is made; the
leaves are the framework calls; and every call that could not be resolved is reported once. -/
theorem extend_accounts_calls (htypes : Corpus.WellTyped types)
    (hindex : Index.build types = .ok index) (hconventions : conventions.WellTyped)
    (entry : String) {key base : String} {root : Method} (hkey : Call.callee? key = some base)
    (hroot : index.locate? base = some root) :
    ∃ (w : Walk) (ms : List Method),
      (start entry).extend conventions index (.text key) = (w, none) ∧
      (expanded w.trace.steps).map .ok = ms.map Method.signature ∧
      (ms.map Method.baseFqn).Nodup ∧
      (∀ m, m ∈ ms ↔ root.Reaches conventions index m) ∧
      (∀ m ∈ ms, (m.sites conventions index).map (·.call) = m.callList) ∧
      (w.trace.edges ++ w.trace.suppressed).Perm
        ((ms.flatMap (Method.sites conventions index)).filterMap CallSite.edge?) ∧
      (w.trace.steps.filter (·.terminal)).Perm
        ((ms.flatMap (Method.sites conventions index)).filterMap CallSite.leaf?) ∧
      w.reports.Perm
        ((ms.flatMap (Method.sites conventions index)).filterMap CallSite.report?) := by
  have h := Index.wellFormed_of_build htypes hindex
  obtain ⟨w, ms, hextend, hc⟩ := exists_covers hconventions h entry hkey hroot
  refine ⟨w, ms, hextend, hc.listed, hc.nodup, hc.reached, fun m hm => ?_, hc.edges, hc.leaves,
    hc.reports⟩
  have hreached := (hc.reached m).mp hm
  exact Method.map_call_sites hconventions h
    (hreached.mem_methodList (Index.mem_methodList_of_locate? hroot))

theorem extend_accounts_calls_sample :
    ∃ (w : Walk) (ms : List Method), (start "entry").extend .default
        (Index.ofTypes Corpus.sample) (.text "app.Shop.buy(Item)") = (w, none) ∧
      (expanded w.trace.steps).map .ok = ms.map Method.signature ∧
      (ms.map Method.baseFqn).Nodup ∧
      (∀ m, m ∈ ms ↔
        Corpus.sampleRoot.Reaches .default (Index.ofTypes Corpus.sample) m) ∧
      (∀ m ∈ ms, (m.sites .default (Index.ofTypes Corpus.sample)).map (·.call) = m.callList) ∧
      (w.trace.edges ++ w.trace.suppressed).Perm
        ((ms.flatMap (Method.sites .default (Index.ofTypes Corpus.sample))).filterMap
          CallSite.edge?) ∧
      (w.trace.steps.filter (·.terminal)).Perm
        ((ms.flatMap (Method.sites .default (Index.ofTypes Corpus.sample))).filterMap
          CallSite.leaf?) ∧
      w.reports.Perm
        ((ms.flatMap (Method.sites .default (Index.ofTypes Corpus.sample))).filterMap
          CallSite.report?) :=
  extend_accounts_calls (show Corpus.WellTyped Corpus.sample by decide)
    (Index.build_eq_ofTypes (by decide)) (by decide) "entry"
    (show Call.callee? "app.Shop.buy(Item)" = some "app.Shop.buy" by decide) (by decide)

end EntryFlow.Walk
