import EntryFlow.Proofs.CallPaths
import EntryFlow.Proofs.ElementaryCycles

/-!
# Cycles of calls

A call graph is asked in two ways whether calls come back to where they started: by the list of all
elementary cycles, and by a test that looks for one only. A library answers both, each on the
directed graph that was built for an earlier query or is built now. If its answers are the
documented ones, they agree with each other, with what is listed as reachable, and with the edges as
they are at that time.

## Main statements

* `CallGraph.findCycles_agrees_with_hasCycles`: the list of cycles, the test and the edges.
-/

namespace EntryFlow.CallGraph

open EntryFlow.Digraph (IsCycle)

variable {g : CallGraph} {queries : CycleQueries Datum} {cycle : List Datum}

theorem nodup_nodes_digraph (g : CallGraph) : g.digraph.nodes.Nodup := by
  refine List.foldlRecOn (motive := fun d : Digraph Datum => d.nodes.Nodup) _ _
    (List.foldlRecOn (motive := fun d : Digraph Datum => d.nodes.Nodup) _ _ List.nodup_nil ?_) ?_
  · intro d hd v _
    exact Digraph.nodup_nodes_addNode hd v
  · intro d hd arc _
    exact Digraph.nodup_nodes_addArc hd arc

theorem adj_digraph_eq (g : CallGraph) : g.digraph.Adj = fun a b => (a, b) ∈ g.edges := by
  funext a b
  exact propext adj_digraph

namespace Consistent

theorem fst_findCycles (h : g.Consistent) (queries : CycleQueries Datum) :
    (g.findCycles queries).1 = queries.cycles g.digraph := by
  simp only [findCycles, h.view_eq, digraph_freshView]

theorem fst_hasCycles (h : g.Consistent) (queries : CycleQueries Datum) :
    (g.hasCycles queries).1 = !queries.isAcyclic g.digraph := by
  simp only [hasCycles, h.view_eq, digraph_freshView]

variable (hq : queries.Documented)
include hq

theorem hasCycles_iff (h : g.Consistent) :
    (g.hasCycles queries).1 = true ↔ ∃ cycle, IsCycle g.digraph.Adj cycle := by
  rw [h.fst_hasCycles, Bool.not_eq_true',
    hq.isAcyclic_eq_false_iff (closed_digraph g) (nodup_nodes_digraph g)]

theorem hasCycles_iff_findCycles (h : g.Consistent) :
    (g.hasCycles queries).1 = true ↔ (g.findCycles queries).1 ≠ [] := by
  rw [h.hasCycles_iff hq, h.fst_findCycles,
    hq.cycles_ne_nil_iff (closed_digraph g) (nodup_nodes_digraph g)]

theorem hasCycles_iff_reaches (h : g.Consistent) :
    (g.hasCycles queries).1 = true ↔
      ∃ a b, (a, b) ∈ g.edges ∧ (b = a ∨ g.Reaches .callees .null b a) := by
  have hclosed := closed_digraph g
  rw [h.hasCycles_iff hq, hclosed.exists_isCycle_iff]
  simp only [adj_digraph, h.reaches_null_iff, Digraph.reachable, hclosed.mem_within_length_iff]

end Consistent

/-- On every graph that comes about, the test for cycles holds exactly where a cycle is listed, and
exactly where some signature has an edge to itself or is reachable from one that it calls. Every
list is an elementary cycle of edges: no signature stands twice, and edges lead from each to the
next and from the last to the first. Every elementary cycle, an edge to itself included, is listed
exactly once, from one of its signatures on. All that is asked of the
library is its documentation. -/
theorem findCycles_agrees_with_hasCycles (hq : queries.Documented) (h : Built g) :
    ((g.hasCycles queries).1 = true ↔ (g.findCycles queries).1 ≠ []) ∧
      ((g.hasCycles queries).1 = true ↔
        ∃ a b, (a, b) ∈ g.edges ∧ (b = a ∨ g.Reaches .callees .null b a)) ∧
      (∀ cycle ∈ (g.findCycles queries).1, IsCycle (fun a b => (a, b) ∈ g.edges) cycle) ∧
      ∀ cycle, IsCycle (fun a b => (a, b) ∈ g.edges) cycle →
        (g.findCycles queries).1.countP (fun listed => listed.IsRotated cycle) = 1 := by
  have hg := h.consistent
  have hclosed := closed_digraph g
  have hnodes := nodup_nodes_digraph g
  refine ⟨hg.hasCycles_iff_findCycles hq, hg.hasCycles_iff_reaches hq, fun cycle hcycle => ?_,
    fun cycle hcycle => ?_⟩
  · rw [hg.fst_findCycles] at hcycle
    rw [← adj_digraph_eq]
    exact hq.isCycle_of_mem _ hclosed hnodes cycle hcycle
  · rw [← adj_digraph_eq] at hcycle
    rw [hg.fst_findCycles]
    exact hq.countP_cycles hclosed hnodes hcycle

/-- The sample with a method that calls itself, and is called by another one of a cycle. -/
def entangled : CallGraph :=
  let packing := (sample.addEdge (.text "take") (.text "pack") true).1
  (packing.addEdge (.text "pack") (.text "pack") true).1

theorem findCycles_agrees_with_hasCycles_entangled :
    CycleQueries.byDisplay.Documented ∧ Built entangled ∧
      (entangled.hasCycles .byDisplay).1 = true ∧ (entangled.findCycles .byDisplay).1 ≠ [] ∧
      entangled.Reaches .callees .null (.text "take") (.text "buy") ∧
      (entangled.findCycles .byDisplay).1.countP
        (fun listed => listed.IsRotated [.text "take", .text "buy"]) = 1 ∧
      (entangled.findCycles .byDisplay).1.countP
        (fun listed => listed.IsRotated [.text "pack"]) = 1 := by
  have hdocumented : CycleQueries.byDisplay.Documented := CycleQueries.documented_byLeastNode _
  have hbuilt : Built entangled :=
    .addEdge "pack" "pack" true (.addEdge "take" "pack" true built_sample)
  have hedges : entangled.edges =
      [(.text "buy", .text "take"), (.text "take", .text "buy"), (.text "take", .text "pack"),
        (.text "pack", .text "pack")] := by decide
  obtain ⟨hlisted, hreaches, -, honce⟩ := findCycles_agrees_with_hasCycles hdocumented hbuilt
  have hhas : (entangled.hasCycles .byDisplay).1 = true := by
    rw [hreaches]
    exact ⟨.text "pack", .text "pack", by simp [hedges], .inl rfl⟩
  have htake : entangled.Reaches .callees .null (.text "take") (.text "buy") := by
    rw [hbuilt.consistent.reaches_null_iff]
    refine ⟨by decide, 1, .arc ?_ (.here _)⟩
    simp [adj_digraph, hedges]
  refine ⟨hdocumented, hbuilt, hhas, hlisted.mp hhas, htake, honce _ ?_, honce _ ?_⟩
  · simp [IsCycle, hedges]
  · simp [IsCycle, hedges]

end EntryFlow.CallGraph
