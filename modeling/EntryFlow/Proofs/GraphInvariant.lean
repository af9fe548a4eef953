import EntryFlow.Digraph.Cycles
import EntryFlow.Proofs.GraphEdges
import EntryFlow.Proofs.Result
import EntryFlow.Proofs.WellTyped

/-!
# The invariant of a call graph

A call graph keeps its edges twice, once by caller and once by callee, and it may keep the view that
a query has built. The two tables stay mirror images of each other, and a view that is kept is the
one that would be built anew, whatever operations come one after the other.

## Main definitions

* `CallGraph.Consistent`: what the tables of a graph have to do with each other.
* `CallGraph.TextSignatures`: graphs with texts as signatures.
* `CallGraph.Built`: the graphs that come about by operations from the empty graph.

## Main statements

* `CallGraph.Consistent.addNode`, `CallGraph.Consistent.addEdge`: what one change keeps.
* `CallGraph.Built.consistent`: what all operations one after the other keep.
* `CallGraph.built_consistent`: every graph that comes about is consistent, and no query on it
  depends on what earlier queries left.
-/

namespace EntryFlow

namespace CallGraph

/-- The tables of a graph agree. Callees and callers mirror each other, without duplicates; every
node stands under its signature and has an entry in both tables; an entry without neighbours is that
of a node; and the view that is kept, if there is one, is that of the nodes and edges. -/
structure Consistent (g : CallGraph) : Prop where
  mirrored : ∀ a b, b ∈ neighbours g.callees a ↔ a ∈ neighbours g.callers b
  nodup_callees : ∀ a, (neighbours g.callees a).Nodup
  nodup_callers : ∀ b, (neighbours g.callers b).Nodup
  named : ∀ signature n, g.nodes.find? signature = some n → n.signature = signature
  listed : ∀ signature ∈ g.nodes.keys,
    signature ∈ g.callees.keys ∧ signature ∈ g.callers.keys
  of_no_callees : ∀ a, g.callees.find? a = some [] → a ∈ g.nodes.keys
  of_no_callers : ∀ b, g.callers.find? b = some [] → b ∈ g.nodes.keys
  view : ∀ v ∈ g.view?, v = g.freshView
  nodup_keys : g.nodes.keys.Nodup ∧ g.callees.keys.Nodup ∧ g.callers.keys.Nodup

/-! ## What an operation can do -/

/-- A new edge adds the callee and the caller at the ends of each other's lists. -/
theorem addEdge_of_new {g : CallGraph} (h : g.Consistent) {caller callee : Datum} {loops : Bool}
    (hnew : callee ∉ neighbours g.callees caller) (hloops : caller ≠ callee ∨ loops = true) :
    (g.addEdge caller callee loops).1 =
      { g with
        callees := g.callees.set caller (neighbours g.callees caller ++ [callee])
        callers := g.callers.set callee (neighbours g.callers callee ++ [caller])
        view? := none } := by
  have hnew' : caller ∉ neighbours g.callers callee := fun hcaller =>
    hnew ((h.mirrored _ _).mpr hcaller)
  rw [addEdge, if_neg (by simpa [or_iff_not_imp_left] using hloops)]
  dsimp only
  rw [if_neg hnew, if_neg hnew']

/-- Adding an edge changes nothing or adds a new edge. -/
theorem addEdge_cases {g : CallGraph} (h : g.Consistent) (caller callee : Datum) (loops : Bool) :
    (g.addEdge caller callee loops).1 = g ∨
      callee ∉ neighbours g.callees caller ∧ (g.addEdge caller callee loops).1 =
        { g with
          callees := g.callees.set caller (neighbours g.callees caller ++ [callee])
          callers := g.callers.set callee (neighbours g.callers callee ++ [caller])
          view? := none } := by
  by_cases hloops : caller ≠ callee ∨ loops = true
  · by_cases hnew : callee ∉ neighbours g.callees caller
    · exact .inr ⟨hnew, addEdge_of_new h hnew hloops⟩
    · rw [addEdge, if_neg (by simpa [or_iff_not_imp_left] using hloops)]
      exact .inl (congrArg Prod.fst (if_pos (not_not.mp hnew)))
  · rw [addEdge, if_pos (by simpa using hloops)]
    exact .inl rfl

/-- What holds of the empty graph and is kept by adding nodes, edges and entry points holds of every
graph that is read. -/
theorem load_induction {P : CallGraph → Prop} (hempty : P empty)
    (hnode : ∀ g n, P g → P (g.addNode n))
    (hedge : ∀ g caller callee loops, P g → P (g.addEdge caller callee loops).1)
    (hentries : ∀ g entries, P g → P { g with entryPoints := entries }) {d : Datum} {g : CallGraph}
    (h : load d = .ok g) : P g := by
  have hinsert : ∀ g n g', P g → insertNode g n = .ok g' → P g' := by
    intro g n g' hg h
    unfold insertNode at h
    split at h
    · cases h
      exact hnode g n hg
    · cases h
  have hcallee : ∀ caller g callee g', P g →
      (if callee.isKey then .ok (g.addEdge (.text caller) callee true).1 else .error .notAKey) =
        (.ok g' : Except Fault CallGraph) → P g' := by
    intro caller g callee g' hg h
    split at h
    · cases h
      exact hedge _ _ _ _ hg
    · cases h
  simp only [load, loadEdges, bind_eq_ok_iff] at h
  obtain ⟨_, -, nodes, -, withNodes, hnodes, _, -, edges, -, withEdges, hedges, entries, -, h⟩ := h
  cases h
  refine hentries _ _ (of_foldlM_eq_ok ?_ (of_foldlM_eq_ok ?_ hempty hnodes) hedges)
  · intro g field g' hg h
    obtain ⟨callees, -, h⟩ := bind_eq_ok_iff.mp h
    exact of_foldlM_eq_ok (hcallee field.1) hg h
  · intro g field g' hg h
    obtain ⟨n, -, h⟩ := bind_eq_ok_iff.mp h
    exact hinsert g n g' hg h

/-! ## What one change keeps -/

namespace Consistent

variable {g : CallGraph}

theorem empty : CallGraph.empty.Consistent := by
  constructor <;> simp [CallGraph.empty, neighbours]

theorem addNode (h : g.Consistent) (n : CallNode) : (g.addNode n).Consistent := by
  by_cases hold : n.signature ∈ g.nodes.keys
  · rwa [addNode_of_mem hold]
  rw [addNode_of_not_mem hold]
  obtain ⟨hnodes, hcallees, hcallers⟩ := h.nodup_keys
  constructor
  case mirrored =>
    intro a b
    simpa only [neighbours_setNew_nil] using h.mirrored a b
  case nodup_callees =>
    intro a
    simpa only [neighbours_setNew_nil] using h.nodup_callees a
  case nodup_callers =>
    intro b
    simpa only [neighbours_setNew_nil] using h.nodup_callers b
  case named =>
    intro signature m hm
    rw [Table.find?_set] at hm
    split at hm
    · rename_i hsignature
      cases hm
      exact hsignature
    · exact h.named signature m hm
  case listed =>
    intro signature hsignature
    simp only [Table.mem_keys_setNew]
    rcases Table.mem_keys_set.mp hsignature with hsignature | rfl
    · exact ⟨.inl (h.listed _ hsignature).1, .inl (h.listed _ hsignature).2⟩
    · exact ⟨.inr rfl, .inr rfl⟩
  case of_no_callees =>
    intro a ha
    rw [Table.mem_keys_set]
    rw [Table.find?_setNew, Option.or_eq_some_iff] at ha
    rcases ha with ha | ⟨-, ha⟩
    · exact .inl (h.of_no_callees a ha)
    · exact .inr (by simpa using ha)
  case of_no_callers =>
    intro b hb
    rw [Table.mem_keys_set]
    rw [Table.find?_setNew, Option.or_eq_some_iff] at hb
    rcases hb with hb | ⟨-, hb⟩
    · exact .inl (h.of_no_callers b hb)
    · exact .inr (by simpa using hb)
  case view => simp
  case nodup_keys =>
    exact ⟨Table.nodup_keys_set hnodes _ _, Table.nodup_keys_setNew hcallees _ _,
      Table.nodup_keys_setNew hcallers _ _⟩

theorem addEdge (h : g.Consistent) (caller callee : Datum) (loops : Bool) :
    (g.addEdge caller callee loops).1.Consistent := by
  rcases addEdge_cases h caller callee loops with hsame | ⟨hnew, hmore⟩
  · rwa [hsame]
  rw [hmore]
  obtain ⟨hnodes, hcallees, hcallers⟩ := h.nodup_keys
  have hnew' : caller ∉ neighbours g.callers callee := fun hcaller =>
    hnew ((h.mirrored _ _).mpr hcaller)
  constructor
  case mirrored =>
    intro a b
    have hab := h.mirrored a b
    simp only [neighbours_set]
    by_cases ha : caller = a <;> by_cases hb : callee = b <;> simp_all [eq_comm]
  case nodup_callees =>
    intro a
    rw [neighbours_set]
    split
    · exact List.concat_eq_append ▸ (List.nodup_concat _ _).mpr ⟨hnew, h.nodup_callees caller⟩
    · exact h.nodup_callees a
  case nodup_callers =>
    intro b
    rw [neighbours_set]
    split
    · exact List.concat_eq_append ▸ (List.nodup_concat _ _).mpr ⟨hnew', h.nodup_callers callee⟩
    · exact h.nodup_callers b
  case named => exact h.named
  case listed =>
    intro signature hsignature
    obtain ⟨hcallees, hcallers⟩ := h.listed signature hsignature
    exact ⟨Table.mem_keys_set.mpr (.inl hcallees), Table.mem_keys_set.mpr (.inl hcallers)⟩
  case of_no_callees =>
    intro a ha
    rw [Table.find?_set] at ha
    split at ha
    · simp at ha
    · exact h.of_no_callees a ha
  case of_no_callers =>
    intro b hb
    rw [Table.find?_set] at hb
    split at hb
    · simp at hb
    · exact h.of_no_callers b hb
  case view => simp
  case nodup_keys =>
    exact ⟨hnodes, Table.nodup_keys_set hcallees _ _, Table.nodup_keys_set hcallers _ _⟩

theorem withEntryPoints (h : g.Consistent) (entries : List Datum) :
    Consistent { g with entryPoints := entries } :=
  { h with view := h.view }

theorem addTrace (h : g.Consistent) (t : Trace) : (g.addTrace t).Consistent := by
  refine addTrace_induction (fun g _ hg => hg.addNode _) (fun g _ _ _ hg _ => hg.addEdge _ _ _) ?_
    h t
  intro g signature hg
  unfold addEntryPoint
  split
  · exact hg
  · exact hg.withEntryPoints _

theorem load {d : Datum} (h : load d = .ok g) : g.Consistent :=
  load_induction empty (fun _ n hg => hg.addNode n) (fun _ _ _ _ hg => hg.addEdge _ _ _)
    (fun _ entries hg => hg.withEntryPoints entries) h

/-- A query leaves the view behind, and nothing else. -/
theorem keepView (h : g.Consistent) : g.view.2.Consistent := by
  unfold CallGraph.view
  split
  · exact h
  · refine { h with view := ?_ }
    rintro v ⟨⟩
    rfl

/-- A query works on the view of the nodes and edges as they are now. -/
theorem view_eq (h : g.Consistent) : g.view.1 = g.freshView := by
  unfold CallGraph.view
  split
  · rename_i v hv
    exact h.view v hv
  · rfl

end Consistent

/-! ## Graphs that come about -/

/-- Every signature in the graph is a text. -/
structure TextSignatures (g : CallGraph) : Prop where
  nodes : ∀ signature ∈ g.nodes.keys, signature.isText
  edges : ∀ a b, b ∈ neighbours g.callees a → a.isText ∧ b.isText

/-- The graphs that come about, starting from the empty one, by changes with texts as signatures and
by the queries that leave something behind, in any order. -/
inductive Built : CallGraph → Prop where
  | empty : Built empty
  | clear {g} : Built g → Built g.clear
  | addNode {g} (n : CallNode) : Built g → n.signature.isText → Built (g.addNode n)
  | addEdge {g} (caller callee : String) (loops : Bool) :
      Built g → Built (g.addEdge (.text caller) (.text callee) loops).1
  | addTrace {g} (t : Trace) : Built g → Built (g.addTrace t)
  | ofTraces (traces : List Trace) : Built (ofTraces traces)
  | load {d g} : load d = .ok g → g.TextSignatures → Built g
  | findPath {g} (a b : Datum) : Built g → Built (g.findPath a b).2
  | findCycles {g} (queries : CycleQueries Datum) : Built g → Built (g.findCycles queries).2
  | hasCycles {g} (queries : CycleQueries Datum) : Built g → Built (g.hasCycles queries).2
  | findReachable {g} (signature : Datum) (direction : Direction) (depth : Datum) :
      Built g → Built (g.findReachable signature direction depth).2

theorem snd_findReachable (g : CallGraph) (signature : Datum) (direction : Direction)
    (depth : Datum) : (g.findReachable signature direction depth).2 = g.view.2 := by
  simp only [findReachable]
  split <;> rfl

/-- Every graph that comes about is consistent. -/
theorem Built.consistent {g : CallGraph} (h : Built g) : g.Consistent := by
  induction h with
  | empty | clear => exact .empty
  | addNode n _ _ ih => exact ih.addNode n
  | addEdge caller callee loops _ ih => exact ih.addEdge _ _ loops
  | addTrace t _ ih => exact ih.addTrace t
  | ofTraces traces =>
    exact List.foldlRecOn traces CallGraph.addTrace .empty fun _ hg t _ => hg.addTrace t
  | load hload _ => exact .load hload
  | findPath _ _ _ ih | findCycles _ _ ih | hasCycles _ _ ih => exact ih.keepView
  | findReachable _ _ _ _ ih =>
    rw [snd_findReachable]
    exact ih.keepView

/-- The graph without the view that a query left in it. -/
def forget (g : CallGraph) : CallGraph :=
  { g with view? := none }

/-- Every graph that comes about is consistent, and each query on it has the answer that it would
have if none had been asked before. -/
theorem built_consistent {g : CallGraph} (h : Built g) :
    g.Consistent ∧
      (∀ a b, (g.findPath a b).1 = (g.forget.findPath a b).1) ∧
      (∀ queries, (g.findCycles queries).1 = (g.forget.findCycles queries).1 ∧
        (g.hasCycles queries).1 = (g.forget.hasCycles queries).1) ∧
      ∀ signature direction depth, (g.findReachable signature direction depth).1 =
        (g.forget.findReachable signature direction depth).1 := by
  have hview : g.view.1 = g.forget.view.1 := h.consistent.view_eq
  refine ⟨h.consistent, fun a b => ?_, fun queries => ⟨?_, ?_⟩, fun signature direction depth => ?_⟩
  · simp only [findPath, hview]
  · simp only [findCycles, hview]
  · simp only [hasCycles, hview]
  · simp only [findReachable, hview]
    split <;> rfl

/-- A graph that was asked for cycles before the call that closes one was added to it. -/
def sample : CallGraph :=
  ((((empty.addTrace ⟨"buy", [⟨"buy", none, false⟩, ⟨"take", some "buy", false⟩], []⟩).hasCycles
    .byDisplay).2.addEdge (.text "take") (.text "buy") false).1.findPath (.text "buy")
    (.text "buy")).2

theorem built_sample : Built sample :=
  .findPath _ _ (.addEdge "take" "buy" false (.hasCycles _ (.addTrace _ .empty)))

theorem built_consistent_sample :
    sample.Consistent ∧
      (∀ a b, (sample.findPath a b).1 = (sample.forget.findPath a b).1) ∧
      (∀ queries, (sample.findCycles queries).1 = (sample.forget.findCycles queries).1 ∧
        (sample.hasCycles queries).1 = (sample.forget.hasCycles queries).1) ∧
      ∀ signature direction depth, (sample.findReachable signature direction depth).1 =
        (sample.forget.findReachable signature direction depth).1 :=
  built_consistent built_sample

end CallGraph

end EntryFlow
