import EntryFlow.CallGraph
import EntryFlow.Proofs.Table

/-!
# The edges of a call graph

Adding nodes changes no edge, and adding an edge adds that edge and no other. So the edges of a
graph that is put together from traces are the calls that the traces tell of, and its entry points
are the steps without a caller.

## Main definitions

* `Trace.calls`: the calls that a trace tells of.

## Main statements

* `CallGraph.mem_edges_ofTraces`: the edges of the graph of some traces.
* `CallGraph.mem_entryPoints_ofTraces`: its entry points.
-/

namespace EntryFlow

/-- The call that a step with a caller stands for. One of a method to itself does not count: it is
left out of the steps and kept among the suppressed calls. -/
def Step.call? (s : Step) : Option (String × String) :=
  s.edge?.filter fun e => e.1 ≠ e.2

/-- The signatures of a step: its target, and its caller if it has one. -/
def Step.signatures (s : Step) : List String :=
  s.target :: s.caller.toList

/-- The calls that a trace tells of. -/
def Trace.calls (t : Trace) : List (String × String) :=
  t.steps.filterMap Step.call? ++ t.suppressed

theorem CallNode.signature_ofSignature (signature : String) :
    (ofSignature signature).signature = .text signature := by
  simp only [ofSignature]

namespace CallGraph

/-! ## Neighbours -/

theorem neighbours_set (table : Table Datum (List Datum)) (key a : Datum) (value : List Datum) :
    neighbours (table.set key value) a = if key = a then value else neighbours table a := by
  rw [neighbours, Table.find?_set]
  split <;> rfl

/-- A new key without neighbours is as good as no key. -/
theorem neighbours_setNew_nil (table : Table Datum (List Datum)) (key a : Datum) :
    neighbours (table.setNew key []) a = neighbours table a := by
  simp only [neighbours, Table.find?_setNew]
  cases table.find? a with
  | some callees => rfl
  | none => split <;> rfl

/-! ## Nodes -/

theorem addNode_of_mem {g : CallGraph} {n : CallNode} (h : n.signature ∈ g.nodes.keys) :
    g.addNode n = g := by
  rw [addNode, if_pos (Table.has_iff.mpr h)]

theorem addNode_of_not_mem {g : CallGraph} {n : CallNode} (h : n.signature ∉ g.nodes.keys) :
    g.addNode n =
      { g with
        nodes := g.nodes.set n.signature n
        callees := g.callees.setNew n.signature []
        callers := g.callers.setNew n.signature []
        view? := none } := by
  rw [addNode, if_neg fun hhas => h (Table.has_iff.mp hhas)]

@[simp] theorem entryPoints_addNode (g : CallGraph) (n : CallNode) :
    (g.addNode n).entryPoints = g.entryPoints := by
  unfold addNode
  split <;> rfl

@[simp] theorem neighbours_callees_addNode (g : CallGraph) (n : CallNode) (a : Datum) :
    neighbours (g.addNode n).callees a = neighbours g.callees a := by
  unfold addNode
  split
  · rfl
  · exact neighbours_setNew_nil _ _ _

theorem nodup_callees_addNode {g : CallGraph} (h : g.callees.keys.Nodup) (n : CallNode) :
    (g.addNode n).callees.keys.Nodup := by
  unfold addNode
  split
  · exact h
  · exact Table.nodup_keys_setNew h _ _

theorem mem_nodes_addSignature (g : CallGraph) (signature : String) :
    .text signature ∈ (g.addSignature signature).nodes.keys := by
  rw [addSignature, ← CallNode.signature_ofSignature signature]
  by_cases hold : (CallNode.ofSignature signature).signature ∈ g.nodes.keys
  · rwa [addNode_of_mem hold]
  · rw [addNode_of_not_mem hold]
    exact Table.mem_keys_set.mpr (.inr rfl)

theorem mem_nodes_addNode_of_mem {g : CallGraph} {signature : Datum}
    (h : signature ∈ g.nodes.keys) (n : CallNode) : signature ∈ (g.addNode n).nodes.keys := by
  by_cases hold : n.signature ∈ g.nodes.keys
  · rwa [addNode_of_mem hold]
  · rw [addNode_of_not_mem hold]
    exact Table.mem_keys_set.mpr (.inl h)

/-! ## Edges -/

/-- Where no caller stands twice, the edges are what the callees of each caller tell. -/
theorem mem_edges_iff {g : CallGraph} (h : g.callees.keys.Nodup) {a b : Datum} :
    (a, b) ∈ g.edges ↔ b ∈ neighbours g.callees a := by
  simp only [edges, List.mem_flatMap, List.mem_map, Prod.mk.injEq, neighbours]
  constructor
  · rintro ⟨⟨caller, callees⟩, hmem, callee, hcallee, rfl, rfl⟩
    rw [(Table.find?_eq_some_iff h).mpr hmem]
    exact hcallee
  · intro hb
    cases hfound : g.callees.find? a with
    | none => simp [hfound] at hb
    | some callees =>
      rw [hfound] at hb
      exact ⟨(a, callees), Table.mem_of_find? hfound, b, hb, rfl, rfl⟩

@[simp] theorem nodes_addEdge (g : CallGraph) (caller callee : Datum) (loops : Bool) :
    (g.addEdge caller callee loops).1.nodes = g.nodes := by
  unfold addEdge
  split
  · rfl
  · dsimp only
    split <;> rfl

@[simp] theorem entryPoints_addEdge (g : CallGraph) (caller callee : Datum) (loops : Bool) :
    (g.addEdge caller callee loops).1.entryPoints = g.entryPoints := by
  unfold addEdge
  split
  · rfl
  · dsimp only
    split <;> rfl

theorem mem_neighbours_addEdge (g : CallGraph) (caller callee : Datum) (loops : Bool)
    (a b : Datum) :
    b ∈ neighbours (g.addEdge caller callee loops).1.callees a ↔
      b ∈ neighbours g.callees a ∨
        (caller ≠ callee ∨ loops = true) ∧ a = caller ∧ b = callee := by
  unfold addEdge
  split
  · rename_i hloop
    have hloop : caller = callee ∧ loops = false := by simpa using hloop
    simp [hloop]
  · rename_i hloop
    have hloop : caller ≠ callee ∨ loops = true := by
      by_cases h : caller = callee <;> simp_all
    dsimp only
    split
    · rename_i hold
      refine ⟨.inl, ?_⟩
      rintro (h | ⟨-, rfl, rfl⟩)
      · exact h
      · exact hold
    · dsimp only
      rw [neighbours_set]
      by_cases ha : caller = a
      · subst ha
        simp [hloop]
      · simp [ha, Ne.symm ha]

theorem nodup_callees_addEdge {g : CallGraph} (h : g.callees.keys.Nodup) (caller callee : Datum)
    (loops : Bool) : (g.addEdge caller callee loops).1.callees.keys.Nodup := by
  unfold addEdge
  split
  · exact h
  · dsimp only
    split
    · exact h
    · exact Table.nodup_keys_set h _ _

/-! ## Steps and suppressed calls -/

/-- Two nodes are the ends of a call. -/
def Tells (a b : Datum) (call : String × String) : Prop :=
  a = .text call.1 ∧ b = .text call.2

@[simp] theorem callees_addEntryPoint (g : CallGraph) (signature : String) :
    (g.addEntryPoint signature).callees = g.callees := by
  unfold addEntryPoint
  split <;> rfl

@[simp] theorem nodes_addEntryPoint (g : CallGraph) (signature : String) :
    (g.addEntryPoint signature).nodes = g.nodes := by
  unfold addEntryPoint
  split <;> rfl

theorem mem_entryPoints_addEntryPoint {g : CallGraph} {signature : String} {e : Datum} :
    e ∈ (g.addEntryPoint signature).entryPoints ↔ e ∈ g.entryPoints ∨ e = .text signature := by
  unfold addEntryPoint
  split
  · rename_i hold
    refine ⟨.inl, ?_⟩
    rintro (h | rfl)
    · exact h
    · exact hold
  · simp

theorem mem_neighbours_addStep (g : CallGraph) (s : Step) (a b : Datum) :
    b ∈ neighbours (g.addStep s).callees a ↔
      b ∈ neighbours g.callees a ∨ ∃ call, s.call? = some call ∧ Tells a b call := by
  obtain ⟨target, caller?, terminal⟩ := s
  cases caller? with
  | none => simp [addStep, addSignature, Step.call?, Step.edge?]
  | some caller =>
    simp [addStep, addSignature, mem_neighbours_addEdge, Step.call?, Step.edge?, Tells,
      Option.filter]

theorem mem_neighbours_addSuppressed (g : CallGraph) (call : String × String) (a b : Datum) :
    b ∈ neighbours (g.addSuppressed call).callees a ↔
      b ∈ neighbours g.callees a ∨ Tells a b call := by
  simp [addSuppressed, addSignature, mem_neighbours_addEdge, Tells]

theorem mem_entryPoints_addStep (g : CallGraph) (s : Step) (e : Datum) :
    e ∈ (g.addStep s).entryPoints ↔
      e ∈ g.entryPoints ∨ s.caller = none ∧ e = .text s.target := by
  obtain ⟨target, caller?, terminal⟩ := s
  cases caller? with
  | none => simp [addStep, addSignature, mem_entryPoints_addEntryPoint]
  | some caller => simp [addStep, addSignature]

theorem entryPoints_addSuppressed (g : CallGraph) (call : String × String) :
    (g.addSuppressed call).entryPoints = g.entryPoints := by
  simp [addSuppressed, addSignature]

/-! ## Traces -/

theorem mem_neighbours_addTrace (g : CallGraph) (t : Trace) (a b : Datum) :
    b ∈ neighbours (g.addTrace t).callees a ↔
      b ∈ neighbours g.callees a ∨ ∃ call ∈ t.calls, Tells a b call := by
  have hsteps := iff_foldl (fun g => b ∈ neighbours g.callees a)
    (fun s => ∃ call, s.call? = some call ∧ Tells a b call)
    (fun g s => mem_neighbours_addStep g s a b) t.steps g
  have hsuppressed := iff_foldl (fun g => b ∈ neighbours g.callees a) (Tells a b)
    (fun g call => mem_neighbours_addSuppressed g call a b) t.suppressed (t.steps.foldl addStep g)
  rw [addTrace, hsuppressed, hsteps, or_assoc]
  refine or_congr_right ?_
  simp only [Trace.calls, List.mem_append, List.mem_filterMap, or_and_right, exists_or]
  refine or_congr_left ⟨?_, ?_⟩
  · rintro ⟨s, hs, call, hcall, htells⟩
    exact ⟨call, ⟨s, hs, hcall⟩, htells⟩
  · rintro ⟨call, ⟨s, hs, hcall⟩, htells⟩
    exact ⟨s, hs, call, hcall, htells⟩

theorem mem_entryPoints_addTrace (g : CallGraph) (t : Trace) (e : Datum) :
    e ∈ (g.addTrace t).entryPoints ↔
      e ∈ g.entryPoints ∨ ∃ s ∈ t.steps, s.caller = none ∧ e = .text s.target := by
  have hsteps := iff_foldl (fun g => e ∈ g.entryPoints)
    (fun s => s.caller = none ∧ e = .text s.target)
    (fun g s => mem_entryPoints_addStep g s e) t.steps g
  have hsuppressed : ∀ (calls : List (String × String)) (g : CallGraph),
      (calls.foldl addSuppressed g).entryPoints = g.entryPoints := by
    intro calls
    induction calls with
    | nil => exact fun _ => rfl
    | cons call calls ih =>
      intro g
      rw [List.foldl_cons, ih, entryPoints_addSuppressed]
  rw [addTrace, hsuppressed, hsteps]

/-- What is kept by adding nodes, edges between a node and others, and entry points is kept by
adding a trace. -/
theorem addTrace_induction {P : CallGraph → Prop}
    (hnode : ∀ g signature, P g → P (g.addSignature signature))
    (hedge : ∀ (g : CallGraph) (caller callee : String) loops, P g → .text caller ∈ g.nodes.keys →
      P (g.addEdge (.text caller) (.text callee) loops).1)
    (hentry : ∀ g signature, P g → P (g.addEntryPoint signature)) {g : CallGraph} (h : P g)
    (t : Trace) : P (g.addTrace t) := by
  have hsteps : P (t.steps.foldl addStep g) := by
    refine List.foldlRecOn _ _ h fun g hg s _ => ?_
    unfold addStep
    split
    · exact hentry _ _ (hnode _ _ hg)
    · exact hedge _ _ _ _ (hnode _ _ (hnode _ _ hg)) (mem_nodes_addSignature _ _)
  refine List.foldlRecOn _ _ hsteps fun g hg call _ => ?_
  exact hedge _ _ _ _ (hnode _ _ (hnode _ _ hg))
    (mem_nodes_addNode_of_mem (mem_nodes_addSignature _ _) _)

theorem nodup_callees_addTrace {g : CallGraph} (h : g.callees.keys.Nodup) (t : Trace) :
    (g.addTrace t).callees.keys.Nodup := by
  refine addTrace_induction (P := fun g : CallGraph => g.callees.keys.Nodup) ?_ ?_ ?_ h t
  · intro g signature hg
    exact nodup_callees_addNode hg _
  · intro g caller callee loops hg _
    exact nodup_callees_addEdge hg _ _ _
  · intro g signature hg
    rwa [callees_addEntryPoint]

theorem nodup_callees_ofTraces (traces : List Trace) : (ofTraces traces).callees.keys.Nodup :=
  List.foldlRecOn (motive := fun g => g.callees.keys.Nodup) traces addTrace List.nodup_nil
    fun _ hg t _ => nodup_callees_addTrace hg t

/-- The edges of the graph of some traces are the calls that the traces tell of. -/
theorem mem_edges_ofTraces {traces : List Trace} {a b : Datum} :
    (a, b) ∈ (ofTraces traces).edges ↔ ∃ t ∈ traces, ∃ call ∈ t.calls, Tells a b call := by
  have htraces := iff_foldl (fun g => b ∈ neighbours g.callees a)
    (fun t : Trace => ∃ call ∈ t.calls, Tells a b call)
    (fun g t => mem_neighbours_addTrace g t a b) traces empty
  rw [mem_edges_iff (nodup_callees_ofTraces traces), ofTraces, htraces]
  simp [empty, neighbours]

/-- Its entry points are the steps without a caller. -/
theorem mem_entryPoints_ofTraces {traces : List Trace} {e : Datum} :
    e ∈ (ofTraces traces).entryPoints ↔
      ∃ t ∈ traces, ∃ s ∈ t.steps, s.caller = none ∧ e = .text s.target := by
  have htraces := iff_foldl (fun g => e ∈ g.entryPoints)
    (fun t : Trace => ∃ s ∈ t.steps, s.caller = none ∧ e = .text s.target)
    (fun g t => mem_entryPoints_addTrace g t e) traces empty
  rw [ofTraces, htraces]
  simp [empty]

end CallGraph

end EntryFlow
