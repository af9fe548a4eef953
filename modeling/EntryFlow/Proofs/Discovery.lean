import EntryFlow.Proofs.Look
import Mathlib.Tactic.Tauto

/-!
# What a recursive walk discovers

The recursive walk over the calls of a frame is described by the methods that it enters and by the
order in which it looks at their call sites. That order is a rearrangement of all sites there are,
so that no site is lost and none is looked at twice.

## Main definitions

* `Walk.Discovers`: from a state, with some sites to look at, some methods are entered.

## Main statements

* `Walk.Explores.discovers`: exploring a frame discovers methods from the sites of the frame.
* `Walk.Explores.anchored`: what is listed has a caller that was listed before.
-/

namespace EntryFlow.Walk

variable {conventions : Conventions} {index : Index}

/-- From `w`, with `sites` to look at, the methods `ms` are entered in this order, which leads to
`w'`. -/
structure Discovers (conventions : Conventions) (index : Index) (w : Walk) (sites : List CallSite)
    (ms : List Method) (w' : Walk) : Prop where
  listed : (expanded w'.trace.steps).map .ok =
    (expanded w.trace.steps).map .ok ++ ms.map Method.signature
  visited : ∀ base, base ∈ w'.visited ↔ base ∈ w.visited ∨ base ∈ ms.map Method.baseFqn
  members : ∀ m ∈ ms, m ∈ index.methodList
  fresh : ∀ base ∈ ms.map Method.baseFqn, base ∉ w.visited
  nodup : (ms.map Method.baseFqn).Nodup
  reached : ∀ m ∈ ms, ∃ s ∈ sites, ∃ n, s.resolution.target? = some n ∧
    n.Reaches conventions index m
  looked : ∃ order : List CallSite,
    order.Perm (sites ++ ms.flatMap (Method.sites conventions index)) ∧ w' = order.foldl look w

namespace Discovers

theorem nil (w : Walk) : Discovers conventions index w [] [] w where
  listed := by simp
  visited := by simp
  members := by simp
  fresh := by simp
  nodup := by simp
  reached := by simp
  looked := ⟨[], by simp, rfl⟩

/-- A site at which no method is entered. -/
theorem cons {w w' : Walk} {s : CallSite} {sites : List CallSite} {ms : List Method}
    (h : Discovers conventions index (w.look s) sites ms w')
    (hvisited : (w.look s).visited = w.visited)
    (hlisted : expanded (w.look s).trace.steps = expanded w.trace.steps) :
    Discovers conventions index w (s :: sites) ms w' where
  listed := by rw [h.listed, hlisted]
  visited := by rw [← hvisited]; exact h.visited
  members := h.members
  fresh := by rw [← hvisited]; exact h.fresh
  nodup := h.nodup
  reached m hm := by
    obtain ⟨t, ht, hreached⟩ := h.reached m hm
    exact ⟨t, List.mem_cons_of_mem _ ht, hreached⟩
  looked := by
    obtain ⟨order, hperm, rfl⟩ := h.looked
    exact ⟨s :: order, hperm.cons s, rfl⟩

/-- A site at which a method is entered: its own sites come before the rest. -/
theorem cons_entered {w v w' : Walk} {caller signature : String} {call : Datum} {target : Method}
    {tier : Tier} {sites : List CallSite} {ms ns : List Method}
    (hsignature : target.signature = .ok signature) (htarget : target ∈ index.methodList)
    (hnew : target.baseFqn ∉ w.visited)
    (hinner : Discovers conventions index
      ((w.visit target.baseFqn).push ⟨signature, some caller, false⟩)
      (target.sites conventions index) ms v)
    (hrest : Discovers conventions index v sites ns w') :
    Discovers conventions index w (⟨caller, call, .method target signature tier⟩ :: sites)
      (target :: (ms ++ ns)) w' := by
  have hvisited : ∀ base, base ∈ v.visited ↔
      base ∈ w.visited ∨ base ∈ (target :: ms).map Method.baseFqn := by
    intro base
    rw [hinner.visited, visited_push, mem_visited_visit, List.map_cons, List.mem_cons]
    tauto
  constructor
  case listed =>
    rw [hrest.listed, hinner.listed]
    simp [push, expanded, hsignature]
  case visited =>
    intro base
    rw [hrest.visited, hvisited]
    simp only [List.map_cons, List.map_append, List.mem_cons, List.mem_append]
    tauto
  case members =>
    intro m hm
    rcases List.mem_cons.mp hm with rfl | hm
    · exact htarget
    · exact (List.mem_append.mp hm).elim (hinner.members m) (hrest.members m)
  case fresh =>
    simp only [List.map_cons, List.map_append, List.mem_cons, List.mem_append]
    rintro base (rfl | hbase | hbase) hold
    · exact hnew hold
    · exact hinner.fresh base hbase (by simp [mem_visited_visit, hold])
    · exact hrest.fresh base hbase ((hvisited base).mpr (.inl hold))
  case nodup =>
    have hdisjoint : ∀ base ∈ (target :: ms).map Method.baseFqn,
        base ∉ ns.map Method.baseFqn :=
      fun base hbase hrest' => hrest.fresh base hrest' ((hvisited base).mpr (.inr hbase))
    have hfirst : ((target :: ms).map Method.baseFqn).Nodup := by
      refine List.nodup_cons.mpr ⟨fun hmem => hinner.fresh _ hmem ?_, hinner.nodup⟩
      simp [mem_visited_visit]
    rw [← List.cons_append, List.map_append]
    exact List.nodup_append.mpr
      ⟨hfirst, hrest.nodup, fun a ha b hb heq => hdisjoint a ha (heq ▸ hb)⟩
  case reached =>
    intro m hm
    rcases List.mem_cons.mp hm with rfl | hm
    · exact ⟨_, List.mem_cons_self, m, rfl, .refl⟩
    · rcases List.mem_append.mp hm with hm | hm
      · obtain ⟨s, hs, n, hn, hreached⟩ := hinner.reached m hm
        exact ⟨_, List.mem_cons_self, target, rfl, .head ⟨s, hs, hn⟩ hreached⟩
      · obtain ⟨s, hs, hreached⟩ := hrest.reached m hm
        exact ⟨s, List.mem_cons_of_mem _ hs, hreached⟩
  case looked =>
    obtain ⟨inner, hinnerPerm, rfl⟩ := hinner.looked
    obtain ⟨rest, hrestPerm, rfl⟩ := hrest.looked
    -- the sites of the frame stand between those of the methods entered
    have hperm : (inner ++ rest).Perm
        (sites ++ (target :: (ms ++ ns)).flatMap (Method.sites conventions index)) := by
      refine (hinnerPerm.append hrestPerm).trans ?_
      rw [List.flatMap_cons, List.flatMap_append, ← List.append_assoc (target.sites _ _)]
      exact List.perm_append_comm_assoc _ _ _
    refine ⟨⟨caller, call, .method target signature tier⟩ :: (inner ++ rest), hperm.cons _, ?_⟩
    rw [List.foldl_cons, List.foldl_append, look_entered hnew]

/-- The targets of the sites that a walk looks at below its root are visited when it ends. -/
theorem mem_visited_of_calls {w w' : Walk} {root : Method} {ms : List Method}
    (hd : Discovers conventions index w (root.sites conventions index) ms w') {m n : Method}
    (hm : m ∈ root :: ms) (hcalls : m.Calls conventions index n) : n.baseFqn ∈ w'.visited := by
  obtain ⟨order, hperm, horder⟩ := hd.looked
  obtain ⟨s, hs, htarget⟩ := hcalls
  rw [← List.flatMap_cons] at hperm
  have hs : s ∈ order := hperm.mem_iff.mpr (List.mem_flatMap.mpr ⟨m, hm, hs⟩)
  rw [horder, mem_visited_foldl_look]
  exact .inr ⟨s, hs, n, htarget, rfl⟩

end Discovers

/-- Exploring a frame looks at its sites and at those of the methods that it enters. -/
theorem Explores.discovers {w w' : Walk} {frame : Frame}
    (h : Explores conventions index w frame w') {caller : String}
    (hcaller : frame.method.signature = .ok caller) :
    ∃ ms, Discovers conventions index w
      (sitesOf conventions index caller frame.context frame.calls) ms w' := by
  induction h generalizing caller with
  | done => exact ⟨[], .nil _⟩
  | ignored hres _ ih =>
    obtain ⟨ms, hms⟩ := ih hcaller
    exact ⟨ms, sitesOf_cons hres ▸ .cons hms rfl rfl⟩
  | unresolved hres hsame _ ih =>
    cases hsame.symm.trans hcaller
    obtain ⟨ms, hms⟩ := ih hcaller
    exact ⟨ms, sitesOf_cons hres ▸ .cons hms rfl rfl⟩
  | framework hres hsame _ ih =>
    cases hsame.symm.trans hcaller
    obtain ⟨ms, hms⟩ := ih hcaller
    refine ⟨ms, sitesOf_cons hres ▸ .cons hms rfl ?_⟩
    simp [look, record, push, expanded]
  | suppressed hres hsame hold _ ih =>
    cases hsame.symm.trans hcaller
    obtain ⟨ms, hms⟩ := ih hcaller
    rw [← look_suppressed hold] at hms
    refine ⟨ms, sitesOf_cons hres ▸ .cons hms ?_ ?_⟩ <;> rw [look_suppressed hold] <;> rfl
  | @entered _ _ _ _ _ _ _ _ _ target _ _ hres hsame hnew hframe _ _ ihinner ih =>
    cases hsame.symm.trans hcaller
    have hsignature := Conventions.signature_of_resolve hres
    obtain ⟨hsites, hmethod⟩ := Method.sites_eq_of_frame conventions hsignature hframe
    obtain ⟨ms, hms⟩ := ihinner (hmethod ▸ hsignature)
    obtain ⟨ns, hns⟩ := ih hcaller
    rw [← hsites] at hms
    refine ⟨target :: (ms ++ ns), ?_⟩
    rw [sitesOf_cons hres]
    exact .cons_entered hsignature (Conventions.mem_methodList_of_resolve hres) hnew hms hns

theorem Explores.discovers_sites (h : index.WellFormed) {v w' : Walk} {root : Method}
    {frame : Frame} (hroot : root ∈ index.methodList)
    (hframe : Frame.ofMethod index root = .ok frame)
    (hexplores : Explores conventions index v frame w') :
    ∃ ms, Discovers conventions index v (root.sites conventions index) ms w' := by
  obtain ⟨parameters, hsignature⟩ := Method.exists_signature (h.wellTyped_of_mem hroot)
  obtain ⟨hsites, hmethod⟩ := Method.sites_eq_of_frame conventions hsignature hframe
  rw [hsites]
  exact hexplores.discovers (hmethod ▸ hsignature)

theorem Explores.prefix_steps {w w' : Walk} {frame : Frame}
    (h : Explores conventions index w frame w') : w.trace.steps <+: w'.trace.steps := by
  induction h with
  | done => exact List.prefix_refl _
  | ignored _ _ ih => exact ih
  | unresolved _ _ _ ih => exact ih
  | framework _ _ _ ih => exact (List.prefix_append _ _).trans ih
  | suppressed _ _ _ _ ih => exact ih
  | entered _ _ _ _ _ _ ihinner ih =>
    rw [push, trace_visit] at ihinner
    exact ((List.prefix_append _ _).trans ihinner).trans ih

/-- Whatever is listed below a frame has a caller that was listed before. -/
theorem Explores.anchored {w w' : Walk} {frame : Frame}
    (h : Explores conventions index w frame w') {caller : String}
    (hcaller : frame.method.signature = .ok caller) (hlisted : caller ∈ expanded w.trace.steps)
    (ha : Anchored w.trace.steps) : Anchored w'.trace.steps := by
  induction h generalizing caller with
  | done => exact ha
  | ignored _ _ ih => exact ih hcaller hlisted ha
  | unresolved _ _ _ ih => exact ih hcaller hlisted ha
  | framework _ hsame _ ih =>
    cases hsame.symm.trans hcaller
    refine ih hcaller ?_ (ha.concat hlisted rfl)
    simp [push, hlisted]
  | suppressed _ _ _ _ ih => exact ih hcaller hlisted ha
  | entered hres hsame _ hframe hinner _ ihinner ih =>
    cases hsame.symm.trans hcaller
    have hsignature := Conventions.signature_of_resolve hres
    obtain ⟨-, hmethod⟩ := Method.sites_eq_of_frame conventions hsignature hframe
    have hpushed := ihinner (hmethod ▸ hsignature) (by simp [push, expanded])
      (by simpa [push] using ha.concat hlisted rfl)
    refine ih hcaller ?_ hpushed
    have hsteps := hinner.prefix_steps
    rw [push, trace_visit] at hsteps
    obtain ⟨later, hlater⟩ := hsteps
    simp [← hlater, hlisted]

end EntryFlow.Walk
